import Geopm.App.Profile
import Geopm.App.RecordFilter

/-!
# The application sampler

The controller drains the record logs of its clients, filters and checks the records, and learns
from them which clients run, on which CPUs.

* `ApplicationSampler` : the members of `ApplicationSamplerImp`;
* `ApplicationSampler.update` : one update, from what the logs and the status table hold;
* `ApplicationSampler.clientPids`, `clientCpuSet`, `doShutdown` : what the controller asks for.

Where the thread of the sampler runs is not part of the model.
-/

namespace Geopm

open Prog

/-- `GEOPM_REGION_HINT_INACTIVE`. -/
def hintInactive : ℕ := 9

/-- `m_process_s`: the filter, if records are filtered, and the validator. -/
structure Process where
  filter : Option RecordFilter := none
  valid : ValidateRecord := {}
deriving Repr

/-- What the dump of a record log returns. -/
structure Dump where
  records : List Record := []
  shortRegions : List ShortRegion := []
deriving DecidableEq, Repr

/-- The members of `ApplicationSamplerImp`, once it is connected. -/
structure ApplicationSampler where
  numCpu : ℕ
  recordBuffer : List Record := []
  shortRegionBuffer : List ShortRegion := []
  /-- The cache of `ApplicationStatusImp`. -/
  statusCache : ℕ → CpuStatus
  /-- The keys of `m_process_map`, in their order. -/
  processPids : List ℤ
  processes : ℤ → Process
  hintTime : ℕ → ℕ → ℤ := fun _ _ => 0
  isCpuActive : ℕ → Bool := fun _ => false
  updateTime : ℤ := 0
  isFirstUpdate : Bool := true
  hintLast : ℕ → ℕ := fun _ => hintUnset
  clientCpuMap : AList (fun _ : ℤ => Finset ℕ) := ∅
  /-- The elements of `m_client_pids`, in their order. -/
  clientPids : List ℤ
  doShutdown : Bool := false
  lastStop : ℤ := 0
  totalTime : ℤ := 0
  /-- The terms of `m_overhead_time`, as the bits of a `double`. -/
  overheads : List ℕ := []
  numRegistered : ℤ := 0
  numClient : ℕ
  /-- `geopm::time_zero`. -/
  timeZero : ℤ

namespace ApplicationSampler

/-- A method of the sampler. -/
abbrev Method := EStateM Exception ApplicationSampler

/-- `connect`, with the filter of the environment and the status table as it is then. -/
def connect (numCpu : ℕ) (filter : Option RecordFilter) (pids : List ℤ) (status : ℕ → CpuStatus)
    (timeZero : ℤ) : ApplicationSampler where
  numCpu := numCpu
  statusCache := status
  processPids := pids.dedup.mergeSort
  processes := fun _ => { filter }
  clientPids := pids.dedup.mergeSort
  numClient := pids.length
  timeZero := timeZero

/-! ### Draining the logs -/

/-- The sampler with another process of the number `pid`. -/
def setProcess (s : ApplicationSampler) (pid : ℤ) (p : Process) : ApplicationSampler :=
  { s with processes := Function.update s.processes pid p }

/-- A call of the filter of a process. -/
def filterRecord (pid : ℤ) (record : Record) : Method (List Record) := do
  match ((← get).processes pid).filter with
  | none => pure [record]
  | some f =>
    zoom (fun _ => f)
      (fun f s => s.setProcess pid { s.processes pid with filter := some f })
      (RecordFilter.filter record)

/-- The check of a record against the records of its process. -/
def onValid (pid : ℤ) (record : Record) : Method Unit :=
  zoom (fun s => (s.processes pid).valid)
    (fun v s => s.setProcess pid { s.processes pid with valid := v })
    (ValidateRecord.check record)

/-- Check a record and push it onto the record buffer. -/
def pushRecord (pid : ℤ) (record : Record) : Method Unit := do
  onValid pid record
  modify fun s => { s with recordBuffer := s.recordBuffer ++ [record] }

/-- The short region records point at the short regions of their own dump: from the first record
on, as many as there are short regions are moved by `offset`. -/
def reindex (offset : ℕ) : ℕ → List Record → List Record
  | 0, records => records
  | _ + 1, [] => []
  | remain + 1, r :: records =>
    if r.event = .shortRegion then
      { r with signal := r.signal + offset } :: reindex offset remain records
    else r :: reindex offset (remain + 1) records

/-- The records of a process, filtered and checked, are pushed onto the record buffer. -/
def pushRecords (pid : ℤ) (records : List Record) : Method Unit := do
  if ((← get).processes pid).filter.isSome then
    records.forM fun record => do
      let filtered ← filterRecord pid record
      filtered.forM (pushRecord pid)
  else do
    records.forM (onValid pid)
    modify fun s => { s with recordBuffer := s.recordBuffer ++ records }

/-- The short regions of a process are pushed onto their buffer, and its records, which start at
`recordOffset`, point at them. -/
def pushShortRegions (recordOffset : ℕ) (shortRegions : List ShortRegion)
    (s : ApplicationSampler) : ApplicationSampler :=
  { s with
    recordBuffer := s.recordBuffer.take recordOffset ++
      reindex s.shortRegionBuffer.length shortRegions.length (s.recordBuffer.drop recordOffset)
    shortRegionBuffer := s.shortRegionBuffer ++ shortRegions }

/-- The body of the loop of `update` over the processes. -/
def drainProcess (dump : ℤ → Dump) (pid : ℤ) : Method Unit := do
  let s ← get
  pushRecords pid (dump pid).records
  modify (pushShortRegions s.recordBuffer.length (dump pid).shortRegions)

/-! ### The status of the CPUs -/

/-- `get_hint` of the status table. -/
def getHint (cpuIdx : ℕ) : Method ℕ := do
  let s ← get
  if s.numCpu ≤ cpuIdx then
    throw ⟨"ApplicationStatusImp::get_hint(): invalid CPU index: %", [cpuIdx], .invalid⟩
  let result := (s.statusCache cpuIdx).hint
  checkHint result
  pure result

def cpuHint (cpuIdx : ℕ) : Method ℕ := do
  if (← get).isCpuActive cpuIdx then getHint cpuIdx else pure hintInactive

/-- `cpu_region_hash`, of a CPU of the platform. -/
def cpuRegionHash (s : ApplicationSampler) (cpuIdx : ℕ) : ℕ :=
  if s.isCpuActive cpuIdx then (s.statusCache cpuIdx).hash else regionHashInvalid

/-- A loop over the CPUs that records their hints. -/
def updateHintLast (cpuIdx : ℕ) : Method Unit := do
  let hint ← cpuHint cpuIdx
  modify fun s => { s with hintLast := Function.update s.hintLast cpuIdx hint }

/-- The time that has gone by is added to the last hint of the CPU. -/
def addHintTime (timeDelta : ℤ) (cpuIdx : ℕ) (s : ApplicationSampler) : ApplicationSampler :=
  let hint := s.hintLast cpuIdx
  let cpuTime := Function.update (s.hintTime cpuIdx) hint (s.hintTime cpuIdx hint + timeDelta)
  { s with hintTime := Function.update s.hintTime cpuIdx cpuTime }

/-- `update_cache` of the status table, and the loops of `update` over the CPUs. -/
def updateHints (currTime : ℤ) (status : ℕ → CpuStatus) : Method Unit := do
  modify fun s => { s with statusCache := status }
  let s ← get
  if s.isFirstUpdate then
    (List.range s.numCpu).forM updateHintLast
  else
    (List.range s.numCpu).forM fun cpuIdx => do
      modify (addHintTime (currTime - s.updateTime) cpuIdx)
      updateHintLast cpuIdx

def clientCpuSet (s : ApplicationSampler) (clientPid : ℤ) : Finset ℕ :=
  (s.clientCpuMap.lookup clientPid).getD ∅

def updateCpuActive : Method Unit := do
  modify fun s =>
    let isActive := fun cpuIdx => s.clientCpuMap.entries.any fun client => cpuIdx ∈ client.2
    { s with isCpuActive := isActive }
  (List.range (← get).numCpu).forM updateHintLast

/-! ### Clients that start and stop -/

/-- The body of the loop of `update_start`. -/
def startRecord (s : ApplicationSampler) (record : Record) : ApplicationSampler :=
  match record.event with
  | .startProfile =>
    { s with
      timeZero := if s.numRegistered = 0 ∨ record.time < s.timeZero then record.time
        else s.timeZero
      numRegistered := s.numRegistered + 1 }
  | .affinity =>
    let cpuSet := insert record.signal (s.clientCpuSet record.process)
    { s with clientCpuMap := s.clientCpuMap.insert record.process cpuSet }
  | .overhead => { s with overheads := s.overheads ++ [record.signal] }
  | _ => s

def updateStart : Method Unit := do
  modify fun s => s.recordBuffer.foldl startRecord s
  if (← get).recordBuffer.any (·.event == .affinity) then updateCpuActive

/-- The body of the loop of `update_stop`. -/
def stopRecord (record : Record) : Method Unit := do
  if record.event = .stopProfile then
    modify fun s => { s with
      lastStop := max s.lastStop record.time
      numRegistered := s.numRegistered - 1 }
    let s ← get
    if record.process ∉ s.clientPids then
      throw ⟨"ApplicationSamplerImp::update_stop(): PID request to stop profiling before " ++
        "call to start profiling: %", [record.process], .runtime⟩
    set { s with clientPids := s.clientPids.erase record.process }

def updateStop : Method Unit := do
  let s ← get
  let isActive := s.numRegistered ≠ 0
  s.recordBuffer.forM stopRecord
  let s ← get
  if s.numRegistered < 0 then
    throw ⟨"ApplicationSamplerImp::update_stop(): PID request to stop profiling multiple times",
      [], .runtime⟩
  if isActive ∧ s.numRegistered = 0 then
    set { s with totalTime := s.lastStop - s.timeZero, doShutdown := true }

/-- `update`, at the time `currTime`, when the logs of the processes and the status table hold
`dump` and `status`. -/
def update (currTime : ℤ) (dump : ℤ → Dump) (status : ℕ → CpuStatus) : Method Unit := do
  modify fun s => { s with recordBuffer := [], shortRegionBuffer := [] }
  (← get).processPids.forM (drainProcess dump)
  updateStart
  updateHints currTime status
  modify fun s => { s with isFirstUpdate := false, updateTime := currTime }
  updateStop

/-! ### The processes of a sampler -/

section Pids

variable {pids : List ℤ} {p : ℤ}

theorem mem_sortedPids : p ∈ pids.dedup.mergeSort ↔ p ∈ pids := by
  rw [List.mem_mergeSort, List.mem_dedup]

theorem nodup_sortedPids : pids.dedup.mergeSort.Nodup :=
  (List.mergeSort_perm _ _).nodup_iff.mpr (List.nodup_dedup _)

end Pids

end ApplicationSampler

end Geopm
