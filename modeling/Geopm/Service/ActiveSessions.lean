import Geopm.Service.AccessLists
import Geopm.Service.Schemas

/-!
# `system_files.ActiveSessions`

The table of open sessions, which is mirrored by one file for each session, and the table of the
processes that are being profiled.

Writing a file and renaming it is one step, and every file in `/run/geopm` passes the ownership
and permission checks of `secure_read_file`: only `geopmd` has access to the directory.
-/

namespace Geopm

/-- The text of an exception. -/
def PyErr.str : PyErr → String
  | .runtimeError msg => msg
  | .keyError key => key
  | .valueError msg => msg
  | .indexError msg => msg
  | .invalidClient msg => msg
  | .noSuchProcess pid => s!"process PID not found (pid={pid})"
  | .processLookup _ => "[Errno 3] No such process"
  | .fileNotFound path => s!"[Errno 2] No such file or directory: '{path}'"
  | .osError msg => msg
  | .brokenPipe => "[Errno 32] Broken pipe"
  | .notImplemented msg => msg

/-! ### `geopmdpy.shmem` -/

/-- `shmem_path_prof`: the status file is shared by the processes of a user. -/
def shmemPathProf (key : String) (pid : Pid) (uid : ℕ) : ProfPath :=
  if key = "status" then ⟨key, uid⟩ else ⟨key, pid⟩

/-- `shmem.create_prof`: the file is opened with `O_CREAT | O_EXCL`. -/
def createProf (key : String) (pid : Pid) (uid : ℕ) : Py Unit := do
  let w ← get
  if shmemPathProf key pid uid ∈ w.shmem then
    throw (.runtimeError s!"geopm_shmem_create_prof() failed: {w.outcomes.message}")
  else
    set { w with shmem := insert (shmemPathProf key pid uid) w.shmem }

/-- `os.unlink(shmem.path_prof(...))`, where a file that does not exist is no error. -/
def unlinkProf (key : String) (pid : Pid) (uid : ℕ) : Py Unit :=
  modify fun w => { w with shmem := w.shmem.erase (shmemPathProf key pid uid) }

namespace ActiveSessions

/-- `ActiveSessions._get_session_path`. -/
def getSessionPath (p : Pid) : String := s!"/run/geopm/session-{p}.json"

/-- `ActiveSessions._pid_info`. -/
def pidInfo (p : Pid) : Py (ℕ × ℕ × ℕ) := do
  let pi ← process p
  return (pi.uid, pi.gid, pi.createTime)

/-- `self._sessions[client_pid]`. -/
def session (p : Pid) : Py Session := do
  match (← get).sessions.lookup p with
  | some s => return s
  | none => throw (.keyError s!"{p}")

/-- Replace `self._sessions[client_pid]`. -/
def setSession (p : Pid) (s : Session) : Py Unit :=
  modify fun w => w.setSession p s

/-- `ActiveSessions.check_client_active`. -/
def checkClientActive (p : Pid) (msg : String) : Py Unit := do
  if p ∈ (← get).sessions then return
  else throw (.runtimeError
    s!"Operation '{msg}' not allowed without an open session. Client PID: {p}")

/-- The text of the `InvalidClientError`. -/
def changedWarning (p : Pid) (s : Session) (uid gid createTime : ℕ) : String :=
  s!"Session PID {p} identifying property has changed during the session:" ++
    (if s.clientUid ≠ uid then s!" uid_orig={s.clientUid} uid_new={uid}" else "") ++
    (if s.clientGid ≠ gid then s!" gid_orig={s.clientGid} gid_new={gid}" else "") ++
    (if s.createTime ≠ createTime then " PID creation time has changed" else "")

/-- Rename the session file of a client that is not tracked. -/
def renameUntracked (p : Pid) : Py Unit := do
  let renamed := s!"{getSessionPath p}-{← uuid4}-INVALID"
  warn (s!"Warning: <geopm-service>: Session file exists, but client {p} is not tracked: " ++
    s!"{getSessionPath p} will be moved to {renamed}\n")
  modify fun w => { w with sessionFiles := w.sessionFiles.erase p }

/-- `ActiveSessions.is_client_active`. -/
def isClientActive (p : Pid) : Py Bool := do
  match (← get).sessions.lookup p with
  | some s => do
    let (uid, gid, createTime) ← pidInfo p
    if s.clientUid = uid ∧ s.clientGid = gid ∧ s.createTime = createTime then return true
    else throw (.invalidClient (changedWarning p s uid gid createTime))
  | none => do
    (if p ∈ (← get).sessionFiles then renameUntracked p else pure ())
    return false

/-- `ActiveSessions._update_session_file`. -/
def updateSessionFile (p : Pid) : Py Unit := do
  let s ← session p
  modify fun w => { w with sessionFiles := w.sessionFiles.insert p ⟨s.toJson, w.now⟩ }

/-- `ActiveSessions.add_client`. -/
def addClient (p : Pid) (signals controls : List String) (watchId : ℤ) : Py Unit := do
  if p ∈ (← get).sessions then return
  else
    tryCatch (do
        let (uid, gid, createTime) ← pidInfo p
        setSession p {
          clientPid := p
          clientUid := uid
          clientGid := gid
          createTime := createTime
          referenceCount := 1
          signals := signals
          controls := controls
          watchId := watchId
          batchServer := none
          profileName := none }
        updateSessionFile p)
      fun
      | .noSuchProcess _ => warn (s!"Warning: <geopm-service>: Session cannot be created for " ++
          s!"PID {p}, it is no longer active\n")
      | e => throw e

/-- `self._sessions[client_pid].pop('profile_name')`, where a missing key is a `RuntimeError`. -/
def popProfileName (p : Pid) : Py String := do
  match (← get).sessions.lookup p with
  | some s =>
    match s.profileName with
    | some name => do
      setSession p { s with profileName := none }
      return name
    | none => throw (.runtimeError
        s!"Client PID {p} requested to stop profiling, but it had not been started.")
  | none => throw (.runtimeError
      s!"Client PID {p} requested to stop profiling, but it had not been started.")

/-- Add to `self._region_names[profile_name]`. -/
def addRegionNames (name : String) (regionNames : List String) : Py Unit :=
  modify fun w =>
    let names := (w.journal.regionNames.lookup name).getD ∅ ∪ regionNames.toFinset
    { w with journal := { w.journal with regionNames := w.journal.regionNames.insert name names } }

/-- `self._profiles[profile_name].remove(client_pid)`. -/
def removeProfilePid (name : String) (p : Pid) : Py Unit := do
  match (← get).profiles.lookup name with
  | none => throw (.keyError s!"'{name}'")
  | some pids =>
    if p ∈ pids then
      modify fun w => { w with profiles := w.profiles.insert name (pids.erase p) }
    else throw (.keyError s!"{p}")

/-- Drop a profile name without PIDs. -/
def popEmptyProfile (name : String) : Py Unit :=
  modify fun w =>
    if w.profiles.lookup name = some ∅ then { w with profiles := w.profiles.erase name } else w

/-- `ActiveSessions.stop_profile`. -/
def stopProfile (p : Pid) (regionNames : List String) (doUpdate : Bool) : Py Unit := do
  let name ← popProfileName p
  addRegionNames name regionNames
  removeProfilePid name p
  let s ← session p
  unlinkProf "record-log" p s.clientUid
  popEmptyProfile name
  (if (← get).profiles.keys = [] then unlinkProf "status" p s.clientUid else pure ())
  if doUpdate then updateSessionFile p else return

/-- `ActiveSessions.remove_client`. -/
def removeClient (p : Pid) : Py Unit := do
  modify fun w => { w with sessionFiles := w.sessionFiles.erase p }
  tryCatch (do
      let s ← session p
      (if s.profileName = none then pure () else stopProfile p [] false)
      modify fun w => { w with sessions := w.sessions.erase p })
    fun
    | .keyError _ => return
    | e => throw e

/-- `ActiveSessions.get_clients`. -/
def getClients : Py (List Pid) := do
  return pySorted (← get).sessions.keys

/-- A member of the record of a session that must be open. -/
def getMember {α : Type} (msg : String) (member : Session → α) (p : Pid) : Py α := do
  checkClientActive p msg
  let s ← session p
  return member s

/-- `ActiveSessions.get_signals`. -/
def getSignals : Pid → Py (List String) := getMember "get_signals" fun s => pySorted s.signals

/-- `ActiveSessions.get_controls`. -/
def getControls : Pid → Py (List String) := getMember "get_controls" fun s => pySorted s.controls

/-- `ActiveSessions.get_watch_id`. -/
def getWatchId : Pid → Py ℤ := getMember "get_watch_id" Session.watchId

/-- `ActiveSessions.get_reference_count`. -/
def getReferenceCount : Pid → Py ℤ := getMember "get_reference_count" Session.referenceCount

/-- `ActiveSessions.get_batch_server`. -/
def getBatchServer : Pid → Py (Option Pid) := getMember "get_batch_server" Session.batchServer

/-- Change the record of a session that must be open, and write its file. -/
def setMember (msg : String) (change : Session → Session) (p : Pid) : Py Unit := do
  checkClientActive p msg
  let s ← session p
  setSession p (change s)
  updateSessionFile p

/-- `ActiveSessions.set_watch_id`; the operation named in the error is the source's. -/
def setWatchId (p : Pid) (watchId : ℤ) : Py Unit :=
  setMember "get_watch_id" (fun s => { s with watchId := watchId }) p

/-- `ActiveSessions.set_reference_count`. -/
def setReferenceCount (p : Pid) (referenceCount : ℤ) : Py Unit :=
  setMember "set_reference_count" (fun s => { s with referenceCount := referenceCount }) p

/-- `ActiveSessions.increment_reference_count`. -/
def incrementReferenceCount : Pid → Py Unit :=
  setMember "increment_reference_count" fun s => { s with referenceCount := s.referenceCount + 1 }

/-- `ActiveSessions.decrement_reference_count`. -/
def decrementReferenceCount : Pid → Py Unit :=
  setMember "decrement_reference_count" fun s => { s with referenceCount := s.referenceCount - 1 }

/-- `ActiveSessions.set_batch_server`. -/
def setBatchServer (p batchPid : Pid) : Py Unit := do
  checkClientActive p "set_batch_server"
  let s ← session p
  match s.batchServer with
  | some current => throw (.runtimeError
      s!"Client {p} has already started a batch server: {current}")
  | none => do
    setSession p { s with batchServer := some batchPid }
    updateSessionFile p

/-- Delete a file that a batch server left over. -/
def removeLeftOver (path : String) : Py Unit := do
  let w ← get
  if path ∈ w.journal.batchFiles then
    warn s!"Warning: <geopm-service>: {path} file was left over, deleting it now.\n"
    modify fun w =>
      { w with journal := { w.journal with batchFiles := w.journal.batchFiles.erase path } }
  else return

/-- The files through which a client and its batch server communicate. -/
def batchPaths (batchPid : Pid) : List String :=
  [s!"/run/geopm/geopm-service-batch-buffer-{batchPid}-signal",
   s!"/run/geopm/geopm-service-batch-buffer-{batchPid}-control",
   s!"/run/geopm/batch-status-{batchPid}-in",
   s!"/run/geopm/batch-status-{batchPid}-out"]

/-- `ActiveSessions.remove_batch_server`. -/
def removeBatchServer (p : Pid) : Py Unit := do
  let s ← session p
  match s.batchServer with
  | none => throw (.keyError "'batch_server'")
  | some batchPid => do
    setSession p { s with batchServer := none }
    updateSessionFile p
    (batchPaths batchPid).forM removeLeftOver

/-- Add a PID to `self._profiles[profile_name]`. -/
def addProfilePid (name : String) (p : Pid) : Py Unit :=
  modify fun w =>
    { w with profiles := w.profiles.insert name (insert p ((w.profiles.lookup name).getD ∅)) }

/-- `ActiveSessions.start_profile`. -/
def startProfile (p : Pid) (name : String) : Py Unit := do
  checkClientActive p "start_profile"
  let s ← session p
  if s.profileName = none then
    let (uid, _, _) ← pidInfo p
    (if (← get).profiles.keys = [] then createProf "status" p uid else pure ())
    addProfilePid name p
    setSession p { s with profileName := some name }
    createProf "record-log" p uid
    updateSessionFile p
  else
    throw (.runtimeError s!"Client pid {p} has requested profiling twice")

/-- `ActiveSessions.get_profile_pids`. -/
def getProfilePids (name : String) : Py (Option (Finset Pid)) := do
  return (← get).profiles.lookup name

/-- `ActiveSessions.pop_profile_region_names`. -/
def popProfileRegionNames (name : String) : Py (Option (Finset String)) := do
  let w ← get
  set { w with journal := { w.journal with regionNames := w.journal.regionNames.erase name } }
  return w.journal.regionNames.lookup name

/-- `ActiveSessions._is_pid_valid`. -/
def isPidValid (p : Pid) (fileTime : ℕ) : Py Bool := do
  match (← get).procs.lookup p with
  | some pi => return decide (pi.createTime < fileTime)
  | none => return false

/-- Rename a session file. -/
def renameInvalid (p : Pid) : Py Unit :=
  modify fun w => { w with sessionFiles := w.sessionFiles.erase p }

/-- The session in a file, when its text is valid. -/
def parseSession (contents : Json) : Option Session :=
  if Json.validate activeSessionsSchema contents then Session.ofJson contents else none

/-- Enter a session that was read from a file written at `fileTime`. -/
def restoreSession (s : Session) (fileTime : ℕ) : Py Unit := do
  let batchServer ← (match s.batchServer with
    | none => pure none
    | some batchPid => do
      let valid ← isPidValid batchPid fileTime
      return if valid then some batchPid else none)
  setSession s.clientPid { s with batchServer := batchServer }
  (match s.profileName with
    | none => pure ()
    | some name => addProfilePid name s.clientPid)
  updateSessionFile s.clientPid

/-- `ActiveSessions._load_session_file`, of the file `session-<p>.json`. -/
def loadSessionFile (p : Pid) : Py Unit := do
  let renamed := s!"{getSessionPath p}-{← uuid4}-INVALID"
  match (← get).sessionFiles.lookup p with
  | none => return
  | some file =>
    match parseSession file.contents with
    | none => do
      warn (s!"Warning: <geopm-service> Invalid JSON file, unable to parse, " ++
        s!"renamed{getSessionPath p} to {renamed} and will ignore\n")
      renameInvalid p
    | some s => do
      let valid ← isPidValid s.clientPid file.ctime
      if valid then restoreSession s file.ctime else renameInvalid p

/-- `ActiveSessions.__init__`. -/
def init : Py Unit := do
  modify fun w => { w with
    sessions := ∅
    profiles := ∅
    shmem := ∅
    journal := { w.journal with regionNames := ∅ } }
  let w ← get
  w.sessionFiles.keys.forM loadSessionFile

end ActiveSessions

end Geopm
