import Geopm.Lib.Prog

/-!
# The world of the access service

Everything `geopmd` reads and writes: the process table, the running batch servers and the
platform's control settings, the files of `/run/geopm` and `/etc/geopm`, and the members of the
`PlatformService`, `ActiveSessions` and `WriteLock` objects.

* `World` : the state; `Py` : a Python method as a program over it;
* `Outcomes` : what the calls that leave the service do during one operation (a fork, a pipe, a
  call into libgeopmd); they are chosen anew, and arbitrarily, for every operation;
* `Journal` : what the service keeps but never consults when it decides about sessions, locks
  and batch servers.
-/

namespace Geopm

/-- Linux process IDs. -/
abbrev Pid := ℤ

/-- A Python `dict`. -/
abbrev Dict (κ ν : Type) := AList fun _ : κ => ν

namespace Dict

variable {κ ν : Type} [DecidableEq κ]

variable (d : Dict κ ν)

theorem lookup_insert_eq (k k' : κ) (v : ν) :
    (d.insert k v).lookup k' = if k' = k then some v else d.lookup k' := by
  split_ifs with h
  · subst h; exact AList.lookup_insert d
  · exact AList.lookup_insert_ne h

theorem lookup_erase_eq (k k' : κ) :
    (d.erase k).lookup k' = if k' = k then none else d.lookup k' := by
  split_ifs with h
  · subst h; exact AList.lookup_erase k' d
  · exact AList.lookup_erase_ne h

theorem mem_iff (k : κ) : k ∈ d ↔ ∃ v, d.lookup k = some v := by
  rw [← AList.lookup_isSome, Option.isSome_iff_exists]

theorem notMem_iff (k : κ) : k ∉ d ↔ d.lookup k = none :=
  AList.lookup_eq_none.symm

theorem erase_of_notMem (k : κ) (h : k ∉ d) : d.erase k = d :=
  AList.ext (List.kerase_of_notMem_keys h)

theorem erase_insert (k : κ) (v : ν) : (d.insert k v).erase k = d.erase k :=
  AList.ext (List.kerase_cons_eq rfl)

end Dict

/-- The exceptions raised by the modelled methods. -/
inductive PyErr where
  | runtimeError (msg : String)
  | keyError (key : String)
  | valueError (msg : String)
  | indexError (msg : String)
  | invalidClient (msg : String)
  | noSuchProcess (pid : Pid)
  | processLookup (pid : Pid)
  | fileNotFound (path : String)
  | osError (msg : String)
  | brokenPipe
  | notImplemented (msg : String)
deriving DecidableEq, Repr

/-! ### The operating system -/

/-- A process: effective IDs, creation time in clock ticks, session leader, and whether
`CapEff` holds `CAP_SYS_ADMIN`. -/
structure Proc where
  uid : ℕ
  gid : ℕ
  createTime : ℕ
  sid : Pid
  capSysAdmin : Bool
deriving DecidableEq

/-- The user database: `pwd.getpwuid(uid).pw_name`, `pwd.getpwnam(user).pw_gid`,
`os.getgrouplist(user, gid)`, and whether `grp.getgrgid(gid)` succeeds. -/
structure UserDb where
  pwName : ℕ → Option String
  pwGid : String → Option ℕ
  grouplist : String → ℕ → List ℕ
  hasGid : ℤ → Bool

/-- One element of a batch configuration: domain type, domain index and name. -/
abbrev Request := ℤ × ℤ × String

/-- The setting of each control: by name, domain type and domain index. -/
abbrev Settings := String → ℤ → ℤ → ℚ

/-- A running `geopmbatch` process.  `lockPid` is a history variable: the PID that held the
control lock when the process was started. -/
structure BatchServer where
  clientPid : Pid
  signalConfig : List Request
  controlConfig : List Request
  lockPid : Option Pid
deriving DecidableEq

/-- What libgeopmd says about one signal: description, domain, aggregation, format, behavior. -/
abbrev SignalInfo := String × ℤ × ℤ × ℤ × ℤ

/-- The signals and controls that libgeopmd supports. -/
structure Platform where
  signalNames : List String
  controlNames : List String
  signalInfo : String → Option SignalInfo
  controlInfo : String → Option (String × ℤ)

/-- What the calls that leave the service do during one operation. -/
structure Outcomes where
  /-- The process `Popen` starts, or `none` for an `OSError`. -/
  popen : Option (Pid × Proc)
  /-- The key line `geopmbatch` prints, or `none` when its pipe breaks. -/
  batchKey : Option String
  /-- The exit code `communicate` finds. -/
  returncode : ℤ
  /-- `stop_batch_server(pid)` raises `RuntimeError`. -/
  stopFails : Pid → Bool
  /-- `save_control_dir` raises `RuntimeError`. -/
  saveFails : Bool
  /-- `restore_control_dir` raises `RuntimeError` and leaves these settings. -/
  restoreFails : Option Settings
  /-- `write_control` raises `RuntimeError`. -/
  writeFails : Bool
  /-- The value `read_signal` returns, or `none` for a `RuntimeError`. -/
  signal : Option ℚ
  /-- The text of a libgeopmd error code. -/
  message : String

/-! ### The files -/

/-- A JSON value; integers and floating point numbers are told apart, as `json` does. -/
inductive Json where
  | null
  | bool (b : Bool)
  | int (n : ℤ)
  | float (t : ℕ)
  | str (s : String)
  | arr (xs : List Json)
  | obj (kvs : List (String × Json))

/-- A session file: its JSON text, and `st_ctime`. -/
structure SessionFile where
  contents : Json
  ctime : ℕ

/-- The access list files of one group; `none` for a file that does not exist. -/
structure GroupFiles where
  allowedSignals : Option String
  allowedControls : Option String
deriving DecidableEq

/-- The key of a profile shared memory file and the ID in its name; the path is
`/run/geopm/profile-<id>-<key>`. -/
structure ProfPath where
  key : String
  id : ℤ
deriving DecidableEq

/-- The two lock files. -/
inductive LockName where
  | control
  | profiler
deriving DecidableEq

/-! ### The service -/

/-- One entry of `ActiveSessions._sessions`. -/
structure Session where
  clientPid : Pid
  clientUid : ℕ
  clientGid : ℕ
  createTime : ℕ
  referenceCount : ℤ
  signals : List String
  controls : List String
  watchId : ℤ
  batchServer : Option Pid
  profileName : Option String
deriving DecidableEq

/-- What the service passes to the platform, or to a batch server, on behalf of a client. -/
inductive Access where
  | readSignal (name : String)
  | writeControl (name : String)
  | batchSignal (name : String)
  | batchControl (name : String)
deriving DecidableEq

/-- What the service keeps but never consults when it decides about sessions, locks and batch
servers: the warnings, the UUIDs drawn, the names accessed, the GLib sources, the region names
reported, `_write_pid`, and the files left over by batch servers. -/
structure Journal where
  stderr : List String := []
  uuids : ℕ := 0
  accessedSignals : Finset String := ∅
  accessedControls : Finset String := ∅
  watches : Dict ℤ Pid := ∅
  lastWatch : ℤ := 0
  regionNames : Dict String (Finset String) := ∅
  writePid : Option Pid := none
  batchFiles : Finset String := ∅

/-- The state of the system. -/
structure World where
  /-- The process table. -/
  procs : Dict Pid Proc
  /-- The clock. -/
  now : ℕ
  /-- The batch servers that are running. -/
  servers : Dict Pid BatchServer
  /-- The current settings of the platform. -/
  settings : Settings
  users : UserDb
  platform : Platform
  outcomes : Outcomes
  /-- The PID in `CONTROL_LOCK`; `none` when the file is empty. -/
  controlLock : Option Pid
  /-- The PID in `PROFILER_LOCK`. -/
  profilerLock : Option Pid
  /-- The settings stored in `SAVE_FILES`; `none` when there is no such directory. -/
  saveFiles : Option Settings
  /-- The `SAVE_FILES` directories that were renamed and kept. -/
  aside : List (String × Settings)
  /-- `session-<pid>.json`. -/
  sessionFiles : Dict Pid SessionFile
  /-- The profile shared memory files. -/
  shmem : Finset ProfPath
  /-- The group directories of `/etc/geopm`. -/
  config : Dict String GroupFiles
  /-- The service process is running and has been constructed. -/
  up : Bool
  /-- `WriteLock._is_file_active`. -/
  isFileActive : Bool
  /-- History variable: how often a lock context was entered while another one was open. -/
  nested : ℕ
  /-- `ActiveSessions._sessions`. -/
  sessions : Dict Pid Session
  /-- `ActiveSessions._profiles`. -/
  profiles : Dict String (Finset Pid)
  /-- The keys of `PlatformService._batch_subp`. -/
  batchSubp : Finset Pid
  /-- History variable: what was passed to the platform and to batch servers. -/
  accesses : List Access
  journal : Journal

/-- A method of the service. -/
abbrev Py := EStateM PyErr World

namespace World

/-- The process that opened the session `s` is the process `pi`: the test of
`ActiveSessions.is_client_active`. -/
def sameProcess (s : Session) (pi : Proc) : Bool :=
  s.clientUid == pi.uid && s.clientGid == pi.gid && s.createTime == pi.createTime

/-- `p` has an open session, and is still the process that opened it. -/
def active (w : World) (p : Pid) : Bool :=
  match w.sessions.lookup p, w.procs.lookup p with
  | some s, some pi => sameProcess s pi
  | _, _ => false

/-- `p` has an open session, but is no longer the process that opened it. -/
def stale (w : World) (p : Pid) : Bool :=
  decide (p ∈ w.sessions) && !w.active p

/-- The content of a lock file. -/
def lockFile (w : World) : LockName → Option Pid
  | .control => w.controlLock
  | .profiler => w.profilerLock

/-- Replace the content of a lock file. -/
def setLockFile (w : World) : LockName → Option Pid → World
  | .control, p => { w with controlLock := p }
  | .profiler, p => { w with profilerLock := p }

/-- Replace the record of a session, in memory only. -/
@[simps -fullyApplied] def setSession (w : World) (p : Pid) (s : Session) : World :=
  { w with sessions := w.sessions.insert p s }

end World

/-! ### Python and operating system calls -/

/-- `sys.stderr.write`. -/
def warn (msg : String) : Py Unit :=
  modify fun w => { w with journal := { w.journal with stderr := w.journal.stderr ++ [msg] } }

/-- `uuid.uuid4()`: each one is drawn once. -/
def uuid4 : Py String := do
  let w ← get
  set { w with journal := { w.journal with uuids := w.journal.uuids + 1 } }
  return s!"{w.journal.uuids}"

/-- `sorted`. -/
def pySorted {α : Type} [LE α] [DecidableLE α] (xs : List α) : List α :=
  xs.insertionSort (· ≤ ·)

/-- `psutil.pid_exists`. -/
def pidExists (p : Pid) : Py Bool := do
  return decide (p ∈ (← get).procs)

/-- `psutil.Process(pid)`. -/
def process (p : Pid) : Py Proc := do
  match (← get).procs.lookup p with
  | some pi => return pi
  | none => throw (.noSuchProcess p)

/-- `os.getsid`. -/
def getsid (p : Pid) : Py Pid := do
  match (← get).procs.lookup p with
  | some pi => return pi.sid
  | none => throw (.processLookup p)

/-- `os.stat(f'/proc/{pid}/status').st_uid`: the file belongs to the effective user. -/
def statUid (p : Pid) : Py ℕ := do
  match (← get).procs.lookup p with
  | some pi => return pi.uid
  | none => throw (.fileNotFound s!"/proc/{p}/status")

/-- `pwd.getpwuid(uid).pw_name`. -/
def getpwuid (uid : ℕ) : Py String := do
  match (← get).users.pwName uid with
  | some name => return name
  | none => throw (.keyError s!"getpwuid(): uid not found: {uid}")

/-- `has_cap_sys_admin`: the `CapEff` line of `/proc/<pid>/status`. -/
def hasCapSysAdmin (p : Pid) : Py Bool := do
  match (← get).procs.lookup p with
  | some pi => return pi.capSysAdmin
  | none => throw (.fileNotFound s!"/proc/{p}/status")

/-- `os.kill(pid, SIGKILL)`. -/
def kill (p : Pid) : Py Unit :=
  modify fun w => { w with procs := w.procs.erase p, servers := w.servers.erase p }

end Geopm
