import Geopm.App.Record
import Geopm.Lib.Lts

/-!
# `ApplicationRecordLogImp`

The application process writes records into a buffer that it shares with the controller, and the
controller empties the buffer.

* `RecordLog` : the shared buffer, and the map that the application process keeps beside it;
* `RecordLog.enter`, `RecordLog.exit`, ... : the methods that the application calls;
* `RecordLog.dump` : the method that the controller calls;
* `LogSystem` : a process and the controller, each call under the lock of the buffer.
-/

namespace Geopm

open Prog

/-- `m_region_enter_s`; the index `-1` is `none`. -/
structure RegionEnter where
  recordIdx : Option ℕ
  regionIdx : Option ℕ
  enterTime : ℤ
  isShort : Bool
deriving DecidableEq, Repr

/-- The members of `ApplicationRecordLogImp`, with the shared `m_layout_s`. -/
structure RecordLog where
  process : ℤ
  /-- The first `num_record` elements of `record_table`. -/
  records : List Record := []
  /-- The first `num_region` elements of `region_table`. -/
  regions : List ShortRegion := []
  /-- `m_hash_region_enter_map`. -/
  enterMap : ℕ → Option RegionEnter := fun _ => none
  epochCount : ℕ := 0
  enteredHash : ℕ := regionHashInvalid
  /-- An index was used that is not below `num_record` or `num_region`. -/
  outOfRange : Bool := false

namespace RecordLog

/-- `M_MAX_RECORD`. -/
def maxRecord : ℕ := 1024

/-- `M_MAX_REGION`. -/
def maxRegion : ℕ := maxRecord + 1

/-- Assign to an element of `m_hash_region_enter_map`. -/
def setEnter (l : RecordLog) (hash : ℕ) (info : RegionEnter) : RecordLog :=
  { l with enterMap := Function.update l.enterMap hash (some info) }

/-- `check_reset`. -/
def reset (l : RecordLog) : RecordLog :=
  if l.records.length = 0 then
    match l.enterMap l.enteredHash with
    | some info =>
      if info.isShort then
        -- The current region keeps its element, so that its exit is that of a short region.
        let info := { info with recordIdx := none, regionIdx := none }
        { l with enterMap := Function.update (fun _ => none) l.enteredHash (some info) }
      else { l with enterMap := fun _ => none }
    | none => { l with enterMap := fun _ => none }
  else l

/-- A method of the log. -/
abbrev Method := EStateM Exception RecordLog

def appendRecord (record : Record) : Method Unit := do
  let l ← get
  if l.records.length < maxRecord then
    set { l with records := l.records ++ [record] }
  else
    throw ⟨"ApplicationRecordLog: maximum number of records reached.", [], .runtime⟩

/-- `enter`. -/
def enter (hash : ℕ) (time : ℤ) : Method Unit := do
  modify reset
  let l ← get
  match l.enterMap hash with
  | some info => set (l.setEnter hash { info with enterTime := time })
  | none => do
    set (l.setEnter hash
      { recordIdx := some l.records.length, regionIdx := none, enterTime := time,
        isShort := false })
    appendRecord { time := time, process := l.process, event := .regionEntry, signal := hash }
  modify fun l => { l with enteredHash := hash }

/-- Convert the region entry event into a short region event. -/
def toShort (regionIdx : ℕ) (record : Record) : Record :=
  { record with event := .shortRegion, signal := regionIdx }

/-- Update the count and the total time of a short region. -/
def complete (enterTime time : ℤ) (region : ShortRegion) : ShortRegion :=
  { region with
    numComplete := region.numComplete + 1
    totalTime := region.totalTime + (time - enterTime) }

/-- The part of `exit` that makes sure the region has a record: an entry from a previous control
loop that is not in the records array yet is written now. -/
def exitRecord (hash : ℕ) (time : ℤ) (info : RegionEnter) : Method RegionEnter :=
  match info.recordIdx with
  | some _ => do
    modify fun l => l.setEnter hash info
    return info
  | none => do
    let l ← get
    let info : RegionEnter := { info with recordIdx := some l.records.length }
    set (l.setEnter hash info)
    appendRecord { time := time, process := l.process, event := .regionEntry, signal := hash }
    return info

/-- The part of `exit` that finds or adds the region in the short regions array. -/
def exitRegion (hash : ℕ) (info : RegionEnter) : Method ℕ :=
  match info.regionIdx with
  | some regionIdx => return regionIdx
  | none => do
    let l ← get
    let recordIdx := info.recordIdx.getD 0
    let regionIdx := l.regions.length
    set { l.setEnter hash { info with regionIdx := some regionIdx } with
      regions := l.regions ++ [{ hash := hash, numComplete := 0, totalTime := 0 }]
      records := l.records.modify recordIdx (toShort regionIdx)
      outOfRange := l.outOfRange || decide (l.records.length ≤ recordIdx) ||
        decide (maxRegion ≤ regionIdx) : RecordLog }
    return regionIdx

/-- `exit`. -/
def exit (hash : ℕ) (time : ℤ) : Method Unit := do
  modify reset
  let l ← get
  match l.enterMap hash with
  | none =>
    appendRecord { time := time, process := l.process, event := .regionExit, signal := hash }
  | some info => do
    let info ← exitRecord hash time { info with isShort := true }
    let regionIdx ← exitRegion hash info
    modify fun l => { l with
      regions := l.regions.modify regionIdx (complete info.enterTime time)
      outOfRange := l.outOfRange || decide (l.regions.length ≤ regionIdx) }
  modify fun l => { l with enteredHash := regionHashInvalid }

/-- `epoch`. -/
def epoch (time : ℤ) : Method Unit := do
  modify reset
  modify fun l => { l with epochCount := l.epochCount + 1 }
  let l ← get
  appendRecord { time := time, process := l.process, event := .epochCount,
                 signal := l.epochCount }

/-- The methods that only append a record. -/
def appendEvent (event : Event) (time : ℤ) (signal : ℕ) : Method Unit := do
  modify reset
  let l ← get
  appendRecord { time := time, process := l.process, event := event, signal := signal }

/-- `affinity`. -/
def affinity (time : ℤ) (cpuIdx : ℕ) : Method Unit := appendEvent .affinity time cpuIdx

/-- `cpuset_changed`, for the set of CPUs that the scheduler has for the process. -/
def cpusetChanged (time : ℤ) (numCpu : ℕ) (procCpuset : ℕ → Bool) : Method Unit :=
  ((List.range numCpu).filter procCpuset).forM (affinity time)

/-- `start_profile`, for the hash of the profile name. -/
def startProfile (time : ℤ) (profileHash : ℕ) : Method Unit :=
  appendEvent .startProfile time profileHash

/-- `stop_profile`, for the hash of the profile name. -/
def stopProfile (time : ℤ) (profileHash : ℕ) : Method Unit :=
  appendEvent .stopProfile time profileHash

/-- `overhead`, for the bits of the overhead time. -/
def overhead (time : ℤ) (field : ℕ) : Method Unit := appendEvent .overhead time field

/-- `dump`. -/
def dump : Method (List Record × List ShortRegion) := do
  let l ← get
  set { l with records := [], regions := [] }
  return (l.records, l.regions)

end RecordLog

/-! ### A process and the controller -/

/-- A call that takes the lock of the buffer once; `cpuset_changed` makes one such call a CPU. -/
inductive LogCall where
  | enter (hash : ℕ) (time : ℤ)
  | exit (hash : ℕ) (time : ℤ)
  | epoch (time : ℤ)
  | affinity (time : ℤ) (cpuIdx : ℕ)
  | startProfile (time : ℤ) (profileHash : ℕ)
  | stopProfile (time : ℤ) (profileHash : ℕ)
  | overhead (time : ℤ) (field : ℕ)
deriving DecidableEq, Repr

/-- The method that is called. -/
def LogCall.run : LogCall → RecordLog.Method Unit
  | .enter hash time => RecordLog.enter hash time
  | .exit hash time => RecordLog.exit hash time
  | .epoch time => RecordLog.epoch time
  | .affinity time cpuIdx => RecordLog.affinity time cpuIdx
  | .startProfile time profileHash => RecordLog.startProfile time profileHash
  | .stopProfile time profileHash => RecordLog.stopProfile time profileHash
  | .overhead time field => RecordLog.overhead time field

/-- The time a call is made at. -/
def LogCall.time : LogCall → ℤ
  | .enter _ time | .exit _ time | .epoch time | .affinity time _ | .startProfile time _
  | .stopProfile time _ | .overhead time _ => time

/-- The application calls a method, or the controller dumps the log. -/
inductive LogAction where
  | call (c : LogCall)
  | dump
deriving DecidableEq, Repr

/-- The log, the calls that have returned, and what the controller has been given. -/
structure LogSystem where
  log : RecordLog
  calls : List LogCall := []
  dumps : List (List Record × List ShortRegion) := []

namespace LogSystem

/-- The log of the process `process` before the first call. -/
def init (process : ℤ) : LogSystem := { log := { process := process } }

/-- A call of the application; the application goes on after an exception. -/
def afterCall (s : LogSystem) (c : LogCall) : LogSystem :=
  match c.run s.log with
  | .ok _ log => { s with log := log, calls := s.calls ++ [c] }
  | .error _ log => { s with log := log }

/-- The controller dumps the log. -/
def afterDump (s : LogSystem) : LogSystem :=
  match RecordLog.dump s.log with
  | .ok dumped log => { s with log := log, dumps := s.dumps ++ [dumped] }
  | .error _ log => { s with log := log }

/-- One step of the system. -/
def next (s : LogSystem) : LogAction → LogSystem
  | .call c => s.afterCall c
  | .dump => s.afterDump

/-- The records of all dumps. -/
def dumpedRecords (s : LogSystem) : List Record := (s.dumps.map Prod.fst).flatten

/-- The short regions of all dumps. -/
def dumpedRegions (s : LogSystem) : List ShortRegion := (s.dumps.map Prod.snd).flatten

end LogSystem

/-- A process and the controller at a record log. -/
def logSystem : Lts LogSystem LogAction := Lts.ofFun LogSystem.next

end Geopm
