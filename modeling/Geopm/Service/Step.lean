import Geopm.Lib.Lts
import Geopm.Service.PlatformService

/-!
# The service as a transition system

* `Call` : one call of a method of `PlatformService`, with its arguments;
* `Action` : a call, a restart of the service, or something that happens around it: processes
  start, end and change their credentials, time passes, batch servers write controls;
* `World.next` and `service` : what an action does; an operation of the service is one step;
* `Fresh` : the states in which the service has just been started for the first time.
-/

namespace Geopm

/-- A call of a method of `PlatformService`. -/
inductive Call where
  | getGroupAccess (group : String) (client : Pid)
  | setGroupAccess (group : String) (signals controls : List String) (client : Pid)
  | setGroupAccessSignals (group : String) (signals : List String) (client : Pid)
  | setGroupAccessControls (group : String) (controls : List String) (client : Pid)
  | getUserAccess (user : String) (client : Pid)
  | getAllAccess
  | getSignalInfo (names : List String)
  | getControlInfo (names : List String)
  | lockControl (client : Pid)
  | unlockControl (client : Pid)
  | openSession (user : String) (client : Pid)
  | closeSession (client request : Pid)
  | closeSessionAdmin (client request : Pid)
  | closeAllSessions
  | startBatch (client : Pid) (signalConfig controlConfig : List Request)
  | stopBatch (client server : Pid)
  | readSignal (client : Pid) (name : String) (domain domainIdx : ℤ)
  | writeControl (client : Pid) (name : String) (domain domainIdx : ℤ) (setting : ℚ)
  | restoreControl (client : Pid)
  | startProfile (user : String) (client : Pid) (profileName : String)
  | stopProfile (client : Pid) (regionNames : List String)
  | getProfilePids (client : PidArg) (profileName : String)
  | popProfileRegionNames (client : PidArg) (profileName : String)
  | checkClient (client : Pid)
  | closeInactiveClients

/-- The results of the methods. -/
inductive Value where
  | none
  | bool (b : Bool)
  | access (signals controls : List String)
  | signalInfo (infos : List (String × SignalInfo))
  | controlInfo (infos : List (String × String × ℤ))
  | batch (server : Pid) (key : String)
  | signal (value : Option ℚ)
  | pids (pids : Finset Pid)
  | names (names : List String)

/-- The method that is called. -/
def Call.run : Call → Py Value
  | .getGroupAccess group client =>
    (fun a => .access a.1 a.2) <$> PlatformService.getGroupAccess group client
  | .setGroupAccess group signals controls client =>
    (fun _ => .none) <$> PlatformService.setGroupAccess group signals controls client
  | .setGroupAccessSignals group signals client =>
    (fun _ => .none) <$> PlatformService.setGroupAccessSignals group signals client
  | .setGroupAccessControls group controls client =>
    (fun _ => .none) <$> PlatformService.setGroupAccessControls group controls client
  | .getUserAccess user client =>
    (fun a => .access a.1 a.2) <$> PlatformService.getUserAccess user client
  | .getAllAccess => (fun a => .access a.1 a.2) <$> PlatformService.getAllAccess
  | .getSignalInfo names => .signalInfo <$> PlatformService.getSignalInfo names
  | .getControlInfo names => .controlInfo <$> PlatformService.getControlInfo names
  | .lockControl client => (fun _ => .none) <$> PlatformService.lockControl client
  | .unlockControl client => (fun _ => .none) <$> PlatformService.unlockControl client
  | .openSession user client => (fun _ => .none) <$> PlatformService.openSession user client
  | .closeSession client request =>
    (fun _ => .none) <$> PlatformService.closeSession client request
  | .closeSessionAdmin client request =>
    (fun _ => .none) <$> PlatformService.closeSessionAdmin client request
  | .closeAllSessions => (fun _ => .none) <$> PlatformService.closeAllSessions
  | .startBatch client signalConfig controlConfig =>
    (fun b => .batch b.1 b.2) <$> PlatformService.startBatch client signalConfig controlConfig
  | .stopBatch client server => (fun _ => .none) <$> PlatformService.stopBatch client server
  | .readSignal client name domain domainIdx =>
    .signal <$> PlatformService.readSignal client name domain domainIdx
  | .writeControl client name domain domainIdx setting =>
    (fun _ => .none) <$> PlatformService.writeControl client name domain domainIdx setting
  | .restoreControl client => (fun _ => .none) <$> PlatformService.restoreControl client
  | .startProfile user client profileName =>
    (fun _ => .none) <$> PlatformService.startProfile user client profileName
  | .stopProfile client regionNames =>
    (fun _ => .none) <$> PlatformService.stopProfile client regionNames
  | .getProfilePids client profileName =>
    .pids <$> PlatformService.getProfilePids client profileName
  | .popProfileRegionNames client profileName =>
    .names <$> PlatformService.popProfileRegionNames client profileName
  | .checkClient client => .bool <$> PlatformService.checkClient client
  | .closeInactiveClients => (fun _ => .none) <$> PlatformService.closeInactiveClients

/-- One step of the system. -/
inductive Action where
  /-- A method of the service is called, and the calls that leave the service do `o`. -/
  | call (o : Outcomes) (r : Call)
  /-- The service process ends, and a new one is started. -/
  | restart (o : Outcomes)
  /-- A process ends. -/
  | exit (p : Pid)
  /-- A process is started, with a PID that is not in use. -/
  | spawn (p : Pid) (uid gid : ℕ) (sid : Pid) (capSysAdmin : Bool)
  /-- A process changes its effective IDs and its capabilities. -/
  | setCreds (p : Pid) (uid gid : ℕ) (capSysAdmin : Bool)
  /-- A process calls `setsid`. -/
  | setSid (p : Pid)
  /-- Time passes. -/
  | tick (n : ℕ)
  /-- The user database changes. -/
  | setUsers (users : UserDb)
  /-- A batch server writes one of the controls it was started with. -/
  | batchWrite (v : Pid) (name : String) (domain domainIdx : ℤ) (setting : ℚ)

namespace World

/-- The state in which an operation starts. -/
def withOutcomes (w : World) (o : Outcomes) : World := { w with outcomes := o }

/-- A PID that is given to a new process is not in use, and the process is created now. -/
def freshPopen (w : World) (o : Outcomes) : Bool :=
  match o.popen with
  | none => true
  | some (v, proc) => decide (v ∉ w.procs) && proc.createTime == w.now

/-- The state after a call. -/
def afterCall (w : World) (o : Outcomes) (r : Call) : World :=
  Prog.final r.run (w.withOutcomes o)

/-- The state after the service has been constructed anew; `up` says whether the constructor
returned. -/
def afterRestart (w : World) (o : Outcomes) : World :=
  match PlatformService.init { w.withOutcomes o with isFileActive := false } with
  | .ok _ w' => { w' with up := true }
  | .error _ w' => { w' with up := false }

/-- The state after the process `p` has ended; a child that the service has not waited for keeps
its PID. -/
def afterExit (w : World) (p : Pid) : World :=
  if p ∈ w.batchSubp then { w with servers := w.servers.erase p }
  else { w with procs := w.procs.erase p, servers := w.servers.erase p }

/-- The state after a change of one process. -/
def changeProc (w : World) (p : Pid) (change : Proc → Proc) : World :=
  match w.procs.lookup p with
  | some pi => { w with procs := w.procs.insert p (change pi) }
  | none => w

/-- The server `v` was started with the control. -/
def mayWrite (w : World) (v : Pid) (name : String) (domain domainIdx : ℤ) : Bool :=
  match w.servers.lookup v with
  | some server => decide ((domain, domainIdx, name) ∈ server.controlConfig)
  | none => false

/-- What an action does; `none` when it cannot be taken. -/
def next (w : World) : Action → Option World
  | .call o r => if w.up && w.freshPopen o then some (w.afterCall o r) else none
  | .restart o => some (w.afterRestart o)
  | .exit p => some (w.afterExit p)
  | .spawn p uid gid sid cap =>
    if p ∈ w.procs then none
    else some { w with procs := w.procs.insert p ⟨uid, gid, w.now, sid, cap⟩ }
  | .setCreds p uid gid cap =>
    some (w.changeProc p fun pi => { pi with uid := uid, gid := gid, capSysAdmin := cap })
  | .setSid p => some (w.changeProc p fun pi => { pi with sid := p })
  | .tick n => some { w with now := w.now + n }
  | .setUsers users => some { w with users := users }
  | .batchWrite v name domain domainIdx setting =>
    if w.mayWrite v name domain domainIdx then
      some { w with settings := Pio.setControl w.settings name domain domainIdx setting }
    else none

end World

/-- The system of the service and the processes around it. -/
def service : Lts World Action := Lts.ofNext World.next

theorem step_call {w : World} {o : Outcomes} {r : Call} (hup : w.up = true)
    (hfresh : w.freshPopen o = true) : service.step w (.call o r) (w.afterCall o r) :=
  if_pos (by rw [hup, hfresh]; rfl)

/-- The service has just been started for the first time: `/run/geopm` is empty.  The process
table, the clock, the user database, the access lists and the platform are arbitrary. -/
structure Fresh (w : World) : Prop where
  up : w.up = true
  isFileActive : w.isFileActive = false
  nested : w.nested = 0
  sessions : w.sessions = ∅
  profiles : w.profiles = ∅
  batchSubp : w.batchSubp = ∅
  servers : w.servers = ∅
  controlLock : w.controlLock = none
  profilerLock : w.profilerLock = none
  saveFiles : w.saveFiles = none
  sessionFiles : w.sessionFiles = ∅
  shmem : w.shmem = ∅
  accesses : w.accesses = []

/-! ### A small system -/

/-- Every call that leaves the service succeeds, and `Popen` starts the process. -/
def Outcomes.succeed (popen : Option (Pid × Proc)) : Outcomes where
  popen := popen
  batchKey := some "key"
  returncode := 0
  stopFails _ := false
  saveFails := false
  restoreFails := none
  writeFails := false
  signal := some 0
  message := ""

/-- The service has just been started on a platform with one signal and one control, and every
user and group exists. -/
def World.small (procs : Dict Pid Proc) (now : ℕ) : World where
  procs := procs
  now := now
  servers := ∅
  settings _ _ _ := 0
  users := ⟨fun _ => some "user", fun _ => some 1, fun _ _ => [], fun _ => true⟩
  platform := ⟨["SIGNAL"], ["CONTROL"], fun _ => none, fun _ => none⟩
  outcomes := .succeed none
  controlLock := none
  profilerLock := none
  saveFiles := none
  aside := []
  sessionFiles := ∅
  shmem := ∅
  config := ∅
  up := true
  isFileActive := false
  nested := 0
  sessions := ∅
  profiles := ∅
  batchSubp := ∅
  accesses := []
  journal := {}

theorem World.fresh_small (procs : Dict Pid Proc) (now : ℕ) : Fresh (World.small procs now) := by
  constructor <;> rfl

/-- The small system with a session leader `10` and its child `11`. -/
def leaderAndChild : World :=
  .small (((∅ : Dict Pid Proc).insert 10 ⟨1, 1, 3, 10, true⟩).insert 11 ⟨1, 1, 3, 10, true⟩) 5

end Geopm
