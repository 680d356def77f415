import Geopm.Service.WriteLock

/-!
# `system_files.AccessLists`

The administrator's lists of the signals and controls each Unix group may use, stored as text
files under `/etc/geopm`.
-/

namespace Geopm

/-- `GEOPM_SERVICE_DEFAULT_ACCESS`. -/
def defaultAccess : String := "0.DEFAULT_ACCESS"

/-- `GEOPM_SERVICE_LOG_REQUEST`. -/
def logRequest : String := "0.LOG_REQUEST"

/-- The characters `str.splitlines` splits at. -/
def isLineBreak (c : Char) : Bool :=
  let n := c.toNat
  (10 ≤ n && n ≤ 13) || (28 ≤ n && n ≤ 30) || n == 0x85 || n == 0x2028 || n == 0x2029

/-- `str.splitlines`, as far as the lines that are not blank. -/
def pySplitlines (cs : List Char) : List (List Char) := cs.splitOnP isLineBreak

/-- `sorted(set(xs))`. -/
def pySortedSet (xs : List String) : List String := pySorted xs.dedup

namespace AccessLists

/-- `AccessLists._validate_group`. -/
def validateGroup (group : String) : Py String := do
  if group = "" then return defaultAccess
  else
    match pyInt? group with
    | none => throw (.valueError s!"Group ID is not an integer: group = \"{group}\"")
    | some gid =>
      if (← get).users.hasGid gid then return group
      else throw (.runtimeError s!"Linux group is not defined: group = \"{group}\"")

/-- `AccessLists._read_allowed`; `none` is a file that does not exist. -/
def readAllowed : Option String → List String
  | none => []
  | some contents =>
    ((pySplitlines contents.toList).map pyStrip).filter (fun line => line ≠ [] ∧ line.head? ≠ some '#')
      |>.map String.ofList

/-- `AccessLists._write_allowed`: the text written for a list of names. -/
def writeAllowed (allowed : List String) : String := "\n".intercalate (allowed ++ [""])

/-- `AccessLists._filter_valid_signals` and `_filter_valid_controls`. -/
def filterValid (supported names : List String) : List String :=
  names.filter fun name => name ∈ supported

/-- `AccessLists.get_all_access`. -/
def getAllAccess : Py (List String × List String) := do
  let w ← get
  return (w.platform.signalNames, w.platform.controlNames)

/-- `AccessLists.get_group_access`. -/
def getGroupAccess (group : String) : Py (List String × List String) := do
  let pathName := if group = "" then defaultAccess else group
  match (← get).config.lookup pathName with
  | none => return ([], [])
  | some files => do
    let _ ← validateGroup group
    let w ← get
    let controls := pySortedSet
      (filterValid w.platform.controlNames (readAllowed files.allowedControls))
    -- all controls that may be written may also be read
    let signals := pySortedSet
      (filterValid w.platform.signalNames (readAllowed files.allowedSignals ++ controls))
    return (signals, controls)

/-- The files of a group directory, which is made when it does not exist. -/
def groupFiles (w : World) (group : String) : GroupFiles :=
  (w.config.lookup group).getD ⟨none, none⟩

/-- Write the signal list of a group. -/
def writeSignals (group : String) (allowed : List String) (w : World) : World :=
  let files := { groupFiles w group with allowedSignals := some (writeAllowed allowed) }
  { w with config := w.config.insert group files }

/-- Write the control list of a group. -/
def writeControls (group : String) (allowed : List String) (w : World) : World :=
  let files := { groupFiles w group with allowedControls := some (writeAllowed allowed) }
  { w with config := w.config.insert group files }

/-- `AccessLists.set_group_access_signals`. -/
def setGroupAccessSignals (group : String) (allowedSignals : List String) : Py Unit := do
  let group ← validateGroup group
  modify (writeSignals group allowedSignals)

/-- `AccessLists.set_group_access_controls`. -/
def setGroupAccessControls (group : String) (allowedControls : List String) : Py Unit := do
  let group ← validateGroup group
  modify (writeControls group allowedControls)

/-- `AccessLists.set_group_access`. -/
def setGroupAccess (group : String) (allowedSignals allowedControls : List String) :
    Py Unit := do
  let group ← validateGroup group
  modify (writeSignals group allowedSignals)
  modify (writeControls group allowedControls)

/-- `AccessLists._get_user_groups`. -/
def getUserGroups (user : String) : Py (List String) := do
  let w ← get
  if w.config.keys = [defaultAccess] then return []
  else
    match w.users.pwGid user with
    | none => throw (.keyError s!"getpwnam(): name not found: '{user}'")
    | some gid => return (w.users.grouplist user gid).map fun g => s!"{g}"

/-- Collect the lists of several groups: the loop of `get_user_access`. -/
def collectGroups : List String → Py (List String × List String)
  | [] => return ([], [])
  | group :: groups => do
    let (signals, controls) ← getGroupAccess group
    let (signals', controls') ← collectGroups groups
    return (signals ++ signals', controls ++ controls')

/-- `AccessLists.get_user_access`. -/
def getUserAccess (user : String) (clientPid : Pid) : Py (List String × List String) := do
  if ← hasCapSysAdmin clientPid then getAllAccess
  else do
    let userGroups ← (if user ≠ "" then
        tryCatch (getUserGroups user) fun
          | .keyError _ => throw (.runtimeError s!"Specified user '{user}' does not exist.")
          | e => throw e
      else pure [])
    let (signals, controls) ← collectGroups (userGroups ++ [""])
    return (pySortedSet signals, pySortedSet controls)

/-! ### What the lists depend on -/

/-- Two states that agree on what `get_user_access` consults for a client. -/
structure Same (p : Pid) (w w' : World) : Prop where
  proc : w'.procs.lookup p = w.procs.lookup p
  config : w'.config = w.config
  users : w'.users = w.users
  platform : w'.platform = w.platform

open Prog

variable {p : Pid}

theorem reads_hasCapSysAdmin : Reads (Same p) (hasCapSysAdmin p) := by
  refine .get_bind (fun w => ?_) fun w w' h => by rw [h.proc]
  cases w.procs.lookup p with
  | none => exact .throw _
  | some pi => exact .pure _

theorem reads_getAllAccess : Reads (Same p) getAllAccess :=
  .get_bind (fun _ => .pure _) fun w w' h => by rw [h.platform]

theorem reads_validateGroup (group : String) : Reads (Same p) (validateGroup group) := by
  unfold validateGroup
  split_ifs
  · exact .pure _
  · split
    · exact .throw _
    · refine .get_bind (fun w => ?_) fun w w' h => by rw [h.users]
      split_ifs
      · exact .pure _
      · exact .throw _

theorem reads_getGroupAccess (group : String) : Reads (Same p) (getGroupAccess group) := by
  refine .get_bind (fun w => ?_) fun w w' h => by rw [h.config]
  split
  · exact .pure _
  · refine .bind (reads_validateGroup group) fun _ => .get_bind (fun w => .pure _) fun w w' h => ?_
    rw [h.platform]

theorem reads_getUserGroups (user : String) : Reads (Same p) (getUserGroups user) := by
  refine .get_bind (fun w => ?_) fun w w' h => by rw [h.config, h.users]
  split_ifs
  · exact .pure _
  · cases w.users.pwGid user with
    | none => exact .throw _
    | some gid => exact .pure _

theorem reads_collectGroups (groups : List String) : Reads (Same p) (collectGroups groups) := by
  induction groups with
  | nil => exact .pure _
  | cons group groups ih =>
    exact .bind (reads_getGroupAccess group) fun _ => .bind ih fun _ => .pure _

/-- The lists of a user depend on the process, the group files, the user database and the
platform. -/
theorem reads_getUserAccess (user : String) : Reads (Same p) (getUserAccess user p) := by
  refine .bind reads_hasCapSysAdmin fun cap => ?_
  split_ifs
  · exact reads_getAllAccess
  · refine .bind (.tryCatch (reads_getUserGroups user) fun e => ?_) fun groups =>
      .bind (reads_collectGroups _) fun _ => .pure _
    cases e <;> exact .throw _
  · exact .bind (.pure _) fun groups => .bind (reads_collectGroups _) fun _ => .pure _

end AccessLists

end Geopm
