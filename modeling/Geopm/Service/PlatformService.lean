import Geopm.Service.ActiveSessions

/-!
# `service.PlatformService`

The methods of the service, each one a program over the `World`.  The calls into libgeopmd
(`pio`), into GLib and into `subprocess` are programs too; what they do is read from the
`Outcomes` of the operation.
-/

namespace Geopm

open WriteLock

/-- `type(ex)`. -/
def PyErr.type : PyErr → String
  | .runtimeError _ => "<class 'RuntimeError'>"
  | .keyError _ => "<class 'KeyError'>"
  | .valueError _ => "<class 'ValueError'>"
  | .indexError _ => "<class 'IndexError'>"
  | .invalidClient _ => "<class 'geopmdpy.system_files.InvalidClientError'>"
  | .noSuchProcess _ => "<class 'psutil.NoSuchProcess'>"
  | .processLookup _ => "<class 'ProcessLookupError'>"
  | .fileNotFound _ => "<class 'FileNotFoundError'>"
  | .osError _ => "<class 'OSError'>"
  | .brokenPipe => "<class 'BrokenPipeError'>"
  | .notImplemented _ => "<class 'NotImplementedError'>"

/-- `str` of a list of strings. -/
def pyStrList (xs : List String) : String :=
  "[" ++ ", ".intercalate (xs.map fun x => s!"'{x}'") ++ "]"

/-- `str` of a list of integers. -/
def pyIntList (xs : List ℤ) : String := "[" ++ ", ".intercalate (xs.map toString) ++ "]"

/-! ### libgeopmd, GLib and `subprocess` -/

namespace Pio

/-- Raise the `RuntimeError` of a libgeopmd error code. -/
def fail {α : Type} : Py α := do
  throw (.runtimeError (← get).outcomes.message)

/-- `pio.signal_description`, `pio.signal_domain_type` and `pio.signal_info`. -/
def signalInfo (name : String) : Py SignalInfo := do
  match (← get).platform.signalInfo name with
  | some info => return info
  | none => fail

/-- `pio.control_description` and `pio.control_domain_type`. -/
def controlInfo (name : String) : Py (String × ℤ) := do
  match (← get).platform.controlInfo name with
  | some info => return info
  | none => fail

/-- `pio.read_signal`. -/
def readSignal (name : String) (_domain _domainIdx : ℤ) : Py ℚ := do
  modify fun w => { w with accesses := w.accesses ++ [.readSignal name] }
  match (← get).outcomes.signal with
  | some value => return value
  | none => fail

/-- The settings after one control has been written. -/
def setControl (st : Settings) (name : String) (domain domainIdx : ℤ) (setting : ℚ) : Settings :=
  fun n d i => if n = name ∧ d = domain ∧ i = domainIdx then setting else st n d i

/-- `pio.write_control`. -/
def writeControl (name : String) (domain domainIdx : ℤ) (setting : ℚ) : Py Unit := do
  modify fun w => { w with accesses := w.accesses ++ [.writeControl name] }
  let w ← get
  if w.outcomes.writeFails then fail
  else set { w with settings := setControl w.settings name domain domainIdx setting }

/-- `pio.save_control_dir` to a new directory, which is then renamed to `SAVE_FILES`. -/
def saveControlDir : Py Unit := do
  let w ← get
  if w.outcomes.saveFails then fail
  else set { w with saveFiles := some w.settings }

/-- `pio.restore_control_dir` from `SAVE_FILES`; when it fails, any of the controls may have been
written. -/
def restoreControlDir : Py Unit := do
  let w ← get
  match w.saveFiles, w.outcomes.restoreFails with
  | none, _ => fail
  | some saved, none => modify fun w => { w with settings := saved }
  | some _, some partly => do
    modify fun w => { w with settings := partly }
    fail

/-- `pio.stop_batch_server`: the `SIGTERM` ends the server. -/
def stopBatchServer (v : Pid) : Py Unit := do
  let w ← get
  if w.outcomes.stopFails v then fail
  else set { w with servers := w.servers.erase v }

end Pio

/-- `GLib.timeout_add_seconds(interval, check_client, client_pid)`. -/
def timeoutAdd (p : Pid) : Py ℤ := do
  let w ← get
  let id := w.journal.lastWatch + 1
  set { w with journal := { w.journal with
    lastWatch := id, watches := w.journal.watches.insert id p } }
  return id

/-- `GLib.source_remove`. -/
def sourceRemove (id : ℤ) : Py Unit :=
  modify fun w =>
    { w with journal := { w.journal with watches := w.journal.watches.erase id } }

/-- `subp.communicate()` of a child, and its exit code: it returns when the child has ended, and
reaps it. -/
def communicate (v : Pid) : Py ℤ := do
  modify fun w => { w with procs := w.procs.erase v, servers := w.servers.erase v }
  return (← get).outcomes.returncode

/-- What a client asks its batch server for. -/
def batchAccesses (signalConfig controlConfig : List Request) : List Access :=
  signalConfig.map (fun r => .batchSignal r.2.2) ++ controlConfig.map fun r => .batchControl r.2.2

/-- `subprocess.Popen(["geopmbatch", str(client_pid)])`, which is entered into `_batch_subp`, and
the lines written to its standard input.  When the pipe breaks, the child has ended and waits to be
reaped. -/
def popenGeopmbatch (client : Pid) (signalConfig controlConfig : List Request) :
    Py (Pid × String) := do
  let w ← get
  match w.outcomes.popen with
  | none => throw (.osError w.outcomes.message)
  | some (v, proc) => do
    let w := { w with
      procs := w.procs.insert v proc
      batchSubp := insert v w.batchSubp
      accesses := w.accesses ++ batchAccesses signalConfig controlConfig }
    match w.outcomes.batchKey with
    | none => do
      set w
      throw .brokenPipe
    | some key => do
      set { w with servers := w.servers.insert v ⟨client, signalConfig, controlConfig, w.controlLock⟩ }
      return (v, key)

namespace PlatformService

open ActiveSessions (getClients)

/-- `self._accessed_signals.add`. -/
def accessedSignals (names : List String) : Py Unit :=
  modify fun w => { w with journal := { w.journal with
    accessedSignals := w.journal.accessedSignals ∪ names.toFinset } }

/-- `self._accessed_controls.add`. -/
def accessedControls (names : List String) : Py Unit :=
  modify fun w => { w with journal := { w.journal with
    accessedControls := w.journal.accessedControls ∪ names.toFinset } }

/-- `self._write_pid = pid`. -/
def setWritePid (p : Option Pid) : Py Unit :=
  modify fun w => { w with journal := { w.journal with writePid := p } }

/-! ### Closing a session -/

/-- Warn of a batch server that ended with an error. -/
def warnExit (returncode : ℤ) : Py Unit :=
  if returncode ≠ 0 then
    warn (s!"Warning: <geopm-service>: Batch server returned non-zero exit code: " ++
      s!"\"{returncode}\" stderr: \"None\".\n")
  else return

/-- Take a batch server out of `_batch_subp` and wait for it to end. -/
def reapBatchServer (v : Pid) (result : Option PyErr) : Py (Option PyErr) := do
  if v ∈ (← get).batchSubp then
    modify fun w => { w with batchSubp := w.batchSubp.erase v }
    let returncode ← communicate v
    warnExit returncode
    return result
  else return some (.keyError s!"{v}")

/-- `PlatformService._stop_batch_server`. -/
def stopBatchServer (v : Pid) : Py (Option PyErr) := do
  let result ← tryCatch (do
      Pio.stopBatchServer v
      return none)
    fun
    | .runtimeError msg => return some (.runtimeError msg)
    | e => throw e
  reapBatchServer v result

/-- `SAVE_FILES` is renamed; `name` is the new name. -/
def renameSaveFiles (name : String) : Py Unit :=
  modify fun w => match w.saveFiles with
    | none => w
    | some saved => { w with saveFiles := none, aside := (name, saved) :: w.aside }

/-- `shutil.rmtree(del_dir)`. -/
def rmtree (name : String) : Py Unit :=
  modify fun w => { w with aside := w.aside.filter fun d => d.1 ≠ name }

/-- The controls are restored from `SAVE_FILES`, unless that raises a `RuntimeError`. -/
def restoreSaved (p : Pid) : Py Bool :=
  tryCatch (do
      Pio.restoreControlDir
      return true)
    fun
    | .runtimeError ex => do
      warn s!"Warning: <geopm-service>: Failed to restore control settings for client {p}: {ex}\n"
      return false
    | e => throw e

/-- The new name of the `SAVE_FILES` directory of the writer `p`. -/
def delDir (p : Pid) (uuid : String) : String := s!"/run/geopm/SAVE_FILES-{p}-{uuid}-del"

/-- The warning when `SAVE_FILES` could not be restored and is kept as `dir`. -/
def notRestored (p : Pid) (dir : String) : String :=
  s!"Warning: <geopm-service>: Failed to restore controls for PID {p}, moved to {dir}\n"

/-- The warning when there is no `SAVE_FILES`. -/
def noSaveDir (p : Pid) : String :=
  s!"Warning: <geopm-service>: Failed to restore controls for PID {p}, " ++
    "/run/geopm/SAVE_FILES is not a directory\n"

/-- `PlatformService._close_session_write`. -/
def closeSessionWrite (p : Pid) : Py Unit := do
  (if (← get).saveFiles.isSome then do
      let isRestored ← restoreSaved p
      let dir := delDir p (← uuid4)
      renameSaveFiles dir
      if isRestored then do
        rmtree dir
        setWritePid none
      else
        warn (notRestored p dir)
    else warn (noSaveDir p))
  WriteLock.unlock .control p

/-- The batch server of a session that is being closed is stopped, and killed when that fails. -/
def closeBatchServer (p : Pid) : Py Unit := do
  match ← ActiveSessions.getBatchServer p with
  | none => return
  | some v =>
    match ← stopBatchServer v with
    | none => return
    | some ex => do
      warn (s!"Warning: <geopm-service> Failed to call pio.stop_batch_server({v}): " ++
        s!"{ex.type} {ex.str}: sending SIGKILL\n")
      if ← pidExists v then kill v else return

/-- The watch and the batch server of an open session end. -/
def endSession (p : Pid) : Py Unit := do
  if p ∈ (← getClients) then
    sourceRemove (← ActiveSessions.getWatchId p)
    closeBatchServer p
  else return

/-- The write session of `p` ends, when it holds the control lock. -/
def closeWriter (p : Pid) : Py Unit :=
  withLock do
    if (← tryLock .control none) = some (.pid p) then closeSessionWrite p else return

/-- The profiler lock is released, when `p` holds it. -/
def closeProfiler (p : Pid) : Py Unit :=
  withLock do
    if (← tryLock .profiler none) = some (.pid p) then WriteLock.unlock .profiler p
    else return

/-- `PlatformService._close_session_completely`. -/
def closeSessionCompletely (p : Pid) : Py Unit := do
  endSession p
  ActiveSessions.removeClient p
  closeWriter p
  closeProfiler p

/-- `PlatformService._is_client_active`. -/
def isClientActive (p : Pid) : Py Bool :=
  tryCatch (ActiveSessions.isClientActive p) fun
    | .invalidClient msg => do
      warn s!"Warning: <geopm-service>: {msg}\n"
      closeSessionCompletely p
      return false
    | .noSuchProcess pid => do
      warn s!"Warning: <geopm-service>: {(PyErr.noSuchProcess pid).str}\n"
      closeSessionCompletely p
      return false
    | e => throw e

/-- `PlatformService._check_client_active`. -/
def checkClientActive (p : Pid) (funcName : String) : Py Bool := do
  let result ← isClientActive p
  (if result then pure () else do
    warn (s!"Warning: <geopm-service>: Operation '{funcName}' not allowed without an open " ++
      s!"session. Client PID: {p}\n")
    closeSessionCompletely p)
  return result

/-! ### Access lists -/

local instance isTrans_string_le : IsTrans String (· ≤ ·) := inferInstance
local instance antisymm_string_le : Std.Antisymm (α := String) (· ≤ ·) := inferInstance

/-- `PlatformService.get_group_access`. -/
def getGroupAccess (group : String) (client : Pid) : Py (List String × List String) := do
  if group = logRequest then
    if ← hasCapSysAdmin client then
      let w ← get
      return (w.journal.accessedSignals.sort (· ≤ ·), w.journal.accessedControls.sort (· ≤ ·))
    else throw (.runtimeError ("Reading the GEOPM Access Service log requires CAP_SYS_ADMIN, " ++
      "try with \"sudo\" or run as \"root\"."))
  else AccessLists.getGroupAccess group

/-- Run `body` for a client with `CAP_SYS_ADMIN`. -/
def settingAccess (client : Pid) (body : Py Unit) : Py Unit := do
  if ← hasCapSysAdmin client then body
  else throw (.runtimeError ("Setting access lists requires CAP_SYS_ADMIN, " ++
    "try with \"sudo\" or run as \"root\"."))

/-- `PlatformService.set_group_access`. -/
def setGroupAccess (group : String) (allowedSignals allowedControls : List String)
    (client : Pid) : Py Unit :=
  settingAccess client (AccessLists.setGroupAccess group allowedSignals allowedControls)

/-- `PlatformService.set_group_access_signals`. -/
def setGroupAccessSignals (group : String) (allowedSignals : List String) (client : Pid) :
    Py Unit :=
  settingAccess client (AccessLists.setGroupAccessSignals group allowedSignals)

/-- `PlatformService.set_group_access_controls`. -/
def setGroupAccessControls (group : String) (allowedControls : List String) (client : Pid) :
    Py Unit :=
  settingAccess client (AccessLists.setGroupAccessControls group allowedControls)

/-- `PlatformService.get_user_access`. -/
def getUserAccess (user : String) (client : Pid) : Py (List String × List String) :=
  AccessLists.getUserAccess user client

/-- `PlatformService.get_all_access`. -/
def getAllAccess : Py (List String × List String) := AccessLists.getAllAccess

/-- `PlatformService.get_signal_info`. -/
def getSignalInfo : List String → Py (List (String × SignalInfo))
  | [] => return []
  | name :: names => do
    let info ← Pio.signalInfo name
    return (name, info) :: (← getSignalInfo names)

/-- `PlatformService.get_control_info`. -/
def getControlInfo : List String → Py (List (String × String × ℤ))
  | [] => return []
  | name :: names => do
    let info ← Pio.controlInfo name
    return (name, info) :: (← getControlInfo names)

/-- `PlatformService.lock_control`. -/
def lockControl (_client : Pid) : Py Unit :=
  throw (.notImplemented "PlatformService: Implementation incomplete")

/-- `PlatformService.unlock_control`. -/
def unlockControl (_client : Pid) : Py Unit :=
  throw (.notImplemented "PlatformService: Implementation incomplete")

/-! ### Sessions -/

/-- `PlatformService._watch_client`. -/
def watchClient (p : Pid) : Py ℤ := timeoutAdd p

/-- `PlatformService.open_session`. -/
def openSession (user : String) (client : Pid) : Py Unit := do
  if ← isClientActive client then ActiveSessions.incrementReferenceCount client
  else
    let (signals, controls) ← getUserAccess user client
    let watchId ← watchClient client
    ActiveSessions.addClient client signals controls watchId

/-- Run `body` when `request` may close the session of `client`. -/
def closing (client request : Pid) (body : Py Unit) : Py Unit := do
  let permitted ← (if client = request then pure true else hasCapSysAdmin request)
  if permitted then body
  else throw (.runtimeError ("Closing session of another PID requires CAP_SYS_ADMIN, " ++
    "try with \"sudo\" or run with \"root\""))

/-- `PlatformService.close_session`. -/
def closeSession (client request : Pid) : Py Unit :=
  closing client request do
    if ← checkClientActive client "PlatformCloseSession" then
      let referenceCount ← ActiveSessions.getReferenceCount client
      if referenceCount = 0 then closeSessionCompletely client
      else if referenceCount = 1 then
        ActiveSessions.decrementReferenceCount client
        closeSessionCompletely client
      else ActiveSessions.decrementReferenceCount client
    else return

/-- `PlatformService.close_session_admin`. -/
def closeSessionAdmin (client request : Pid) : Py Unit :=
  closing client request (closeSessionCompletely client)

/-- The clients with the writer first. -/
def writerFirst (writePid : Option Pid) (clients : List Pid) : List Pid :=
  match writePid with
  | none => clients
  | some p => if p ∈ clients then p :: clients.erase p else clients

/-- `PlatformService.close_all_sessions`. -/
def closeAllSessions : Py Unit := do
  let clients ← getClients
  let allClients := writerFirst (← get).journal.writePid clients
  allClients.forM fun p =>
    tryCatch (closeSessionAdmin p p) fun ex =>
      warn (s!"Warning: <geopm-service>: When closing session for client PID {p}: {ex.str}\n")
  if allClients = [] then return
  else warn (s!"Info: <geopm-service>: Closed all sessions for client PIDs: " ++
    s!"{pyIntList allClients}\n")

/-! ### Write mode -/

/-- The PID that the write lock of a client is tied to: its session leader, when that is another
process that exists. -/
def writePid (client : Pid) : Py Pid := do
  let clientSid ← getsid client
  let leaderExists ← pidExists clientSid
  return if clientSid ≠ client ∧ leaderExists then clientSid else client

/-- Open a session for the session leader, inside the locked region. -/
def openLeaderSession (leader : Pid) : Py Unit := do
  let sessionUid ← statUid leader
  let sessionUser ← getpwuid sessionUid
  openSession sessionUser leader

/-- A `SAVE_FILES` directory that no session owns is renamed. -/
def renameUnowned : Py Unit := do
  if (← get).saveFiles.isSome then
    let delDir := s!"/run/geopm/SAVE_FILES-{← uuid4}-del"
    warn (s!"Warning: <geopm-service> Renaming SAVE_FILES directory which not owned by any " ++
      s!"active session to {delDir}\n")
    renameSaveFiles delDir
  else return

/-- `PlatformService._write_mode`. -/
def writeMode (client : Pid) : Py Unit := do
  let writer ← writePid client
  withLock do
    match ← tryLock .control none with
    | none => do
      (if writer ≠ client then openLeaderSession writer else pure ())
      renameUnowned
      let _ ← uuid4
      Pio.saveControlDir
      let _ ← tryLock .control (some (.pid writer))
      setWritePid (some writer)
    | some lockPid =>
      if lockPid = .pid writer then return
      else throw (.runtimeError (s!"The PID {client} requested write access, but the geopm " ++
        s!"service already has write mode client with PID or SID of {lockPid}"))

/-! ### Batch servers -/

/-- The names requested from a batch server. -/
def requested (config : List Request) : List String := (config.map fun r => r.2.2).dedup

/-- `requested.issubset(supported)`, and the `RuntimeError` otherwise. -/
def checkRequested (what : String) (config : List Request) (supported : List String) :
    Py Unit := do
  let missing := (requested config).filter fun name => name ∉ supported
  if missing = [] then return
  else throw (.runtimeError (s!"Requested {what} that are not in allowed list: " ++
    pyStrList (pySorted missing)))

/-- `PlatformService.start_batch`. -/
def startBatch (client : Pid) (signalConfig controlConfig : List Request) :
    Py (Pid × String) := do
  if ← checkClientActive client "PlatformStartBatch" then
    let supportedSignals ← ActiveSessions.getSignals client
    let supportedControls ← ActiveSessions.getControls client
    checkRequested "signals" signalConfig supportedSignals
    checkRequested "controls" controlConfig supportedControls
    (if controlConfig = [] then pure () else writeMode client)
    match ← ActiveSessions.getBatchServer client with
    | some v => throw (.runtimeError s!"Client {client} has already started a batch server: {v}")
    | none => do
      let (v, key) ← popenGeopmbatch client signalConfig controlConfig
      ActiveSessions.setBatchServer client v
      accessedSignals (signalConfig.map fun r => r.2.2)
      accessedControls (controlConfig.map fun r => r.2.2)
      return (v, key)
  else return (-1, "")

/-- `str` of an optional PID. -/
def pyStrOption : Option Pid → String
  | none => "None"
  | some p => s!"{p}"

/-- `PlatformService.stop_batch`. -/
def stopBatch (client server : Pid) : Py Unit := do
  if ← checkClientActive client "StopBatch" then
    let actual ← ActiveSessions.getBatchServer client
    (if actual ≠ some server then
        warn (s!"Warning: <geopm-service>: Client PID: {client} requested to stop batch server " ++
          s!"PID: {server}, actual batch server PID: {pyStrOption actual}\n")
      else do
        match ← stopBatchServer server with
        | none => pure ()
        | some ex => warn (s!"Warning: <geopm-service>: Client PID: {client} requested to stop " ++
            s!"batch server PID: {server}: {ex.str}\n"))
    ActiveSessions.removeBatchServer client
  else return

/-! ### Signals and controls -/

/-- `PlatformService.read_signal`; `none` is `math.nan`. -/
def readSignal (client : Pid) (signalName : String) (domain domainIdx : ℤ) : Py (Option ℚ) := do
  if ← checkClientActive client "PlatformReadSignal" then
    if signalName ∈ (← ActiveSessions.getSignals client) then
      let result ← Pio.readSignal signalName domain domainIdx
      accessedSignals [signalName]
      return some result
    else
      warn (s!"Warning: <geopm-service>: Requested signal that is not in allowed list: " ++
        s!"'{signalName}'\n")
      return none
  else return none

/-- `PlatformService.write_control`. -/
def writeControl (client : Pid) (controlName : String) (domain domainIdx : ℤ) (setting : ℚ) :
    Py Unit := do
  if ← checkClientActive client "PlatformWriteControl" then
    if controlName ∈ (← ActiveSessions.getControls client) then
      writeMode client
      Pio.writeControl controlName domain domainIdx setting
      accessedControls [controlName]
    else throw (.runtimeError s!"Requested control that is not in allowed list: {controlName}")
  else return

/-- `PlatformService.restore_control`. -/
def restoreControl (client : Pid) : Py Unit := do
  if ← checkClientActive client "PlatformRestoreControl" then
    writeMode client
    Pio.restoreControlDir
  else return

/-! ### Profiles -/

/-- `PlatformService.start_profile`. -/
def startProfile (user : String) (client : Pid) (profileName : String) : Py Unit := do
  openSession user client
  ActiveSessions.startProfile client profileName

/-- `PlatformService.stop_profile`. -/
def stopProfile (client : Pid) (regionNames : List String) : Py Unit := do
  if ← checkClientActive client "PlatformStopProfile" then
    ActiveSessions.stopProfile client regionNames true
    closeSession client client
  else return

/-- `PlatformService._profiler_mode`. -/
def profilerMode (client : PidArg) : Py Unit :=
  withLock do
    match ← tryLock .profiler none with
    | none => do
      let _ ← tryLock .profiler (some client)
    | some lockPid =>
      if lockPid = client then return
      else throw (.runtimeError (s!"The PID {client} requested control of application profile, " ++
        s!"but the geopm service already has an application profile controlling client with PID " ++
        s!"{lockPid}.  To start a new controller kill {lockPid} and retry."))

/-- `PlatformService.get_profile_pids`; the order of the PIDs is that of a Python `set`. -/
def getProfilePids (client : PidArg) (profileName : String) : Py (Finset Pid) := do
  profilerMode client
  match ← ActiveSessions.getProfilePids profileName with
  | none => return ∅
  | some pids =>
    let w ← get
    return pids.filter fun p => p ∈ w.procs

/-- `str` of the content of a lock file. -/
def pyStrArg : Option PidArg → String
  | none => "None"
  | some p => s!"{p}"

/-- `PlatformService.pop_profile_region_names`. -/
def popProfileRegionNames (client : PidArg) (profileName : String) : Py (List String) := do
  withLock do
    let profilerPid ← tryLock .profiler none
    if profilerPid = some client then WriteLock.unlock .profiler client
    else throw (.runtimeError (s!"The PID {client} requested profile region names, but the " ++
      s!"profiling PID is {pyStrArg profilerPid}"))
  match ← ActiveSessions.popProfileRegionNames profileName with
  | none => return []
  | some names => return names.sort (· ≤ ·)

/-! ### Watching the clients -/

/-- `PlatformService.check_client`. -/
def checkClient (p : Pid) : Py Bool := do
  let clients ← getClients
  let alive ← pidExists p
  if p ∈ clients ∧ alive = false then
    closeSessionCompletely p
    return false
  else return true

/-- `PlatformService.close_inactive_clients`. -/
def closeInactiveClients : Py Unit := do
  let clients ← getClients
  clients.forM fun p => do
    let _ ← isClientActive p

/-! ### The constructor -/

/-- Watch the clients whose sessions were read from files. -/
def watchLoaded (p : Pid) : Py Unit := do
  if ← checkClient p then
    let watchId ← watchClient p
    ActiveSessions.setWatchId p watchId
  else return

/-- Release the write lock, unless its owner is active. -/
def recoverControlLock : Py Unit :=
  withLock do
    match (← get).controlLock with
    | none => return
    | some p =>
      if ← isClientActive p then setWritePid (some p) else closeSessionWrite p

/-- Release the profiler lock, unless its owner is active. -/
def recoverProfilerLock : Py Unit :=
  withLock do
    match (← get).profilerLock with
    | none => return
    | some p => if ← isClientActive p then return else WriteLock.unlock .profiler p

/-- `PlatformService.__init__`. -/
def init : Py Unit := do
  ActiveSessions.init
  modify fun w => { w with
    batchSubp := ∅
    journal := { w.journal with accessedSignals := ∅, accessedControls := ∅, writePid := none } }
  let clients ← getClients
  clients.forM watchLoaded
  recoverControlLock
  recoverProfilerLock

end PlatformService

end Geopm
