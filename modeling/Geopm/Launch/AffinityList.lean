import Geopm.Lib.Prog

/-!
# The affinity of the ranks

The launcher deals the cores of a node to the ranks, from the highest rank and core downwards, and
finds a CPU for the controller.  It deals positions in the list of the allowed CPUs, which are its
CPUs if all are allowed.

* `Launcher` : what the launcher knows of the job and of the node;
* `Launcher.positions`, `Launcher.affinityList` : the positions, and the sets of CPUs;
* `Launcher.launchSets` : the sets of the controller and of the ranks of a launch;
* `Launcher.Placement` : what these are meant to be;
* `Launcher.launchSets_spec` : a launch has such a placement or raises a `RuntimeError`, if the
  allowed CPUs fit the cores that are dealt;
* `launchSets_unfit` : launches for which they do not, or in which the controller shares a CPU.
-/

namespace Geopm.Launch

open List hiding Disjoint count
open Nat

/-! ### The launcher -/

/-- What `affinity_list` raises; a loop that does not end runs out of fuel. -/
inductive Error where
  | runtime (what : String)
  | index
  | unboundLocal
  | outOfFuel
deriving DecidableEq

/-- The launch methods of `--geopm-ctl`. -/
inductive Ctl where
  | process | pthread | application
deriving DecidableEq

/-- The job, the topology of a node, and the CPUs that `_get_cpuset` finds. -/
structure Launcher where
  numAppMask : ℕ
  cpuPerRank : ℕ
  numLinuxCpu : ℕ
  threadPerCore : ℕ
  corePerSocket : ℕ
  numSocket : ℕ
  allowHtPinning : Bool
  ctl : Ctl
  allowedCpuset : List ℕ
  threadPerCore_pos : 0 < threadPerCore
  numSocket_pos : 0 < numSocket
  nodup : allowedCpuset.Nodup
  length_le : allowedCpuset.length ≤ numLinuxCpu
  numLinuxCpu_le : numLinuxCpu ≤ numSocket * corePerSocket * threadPerCore

/-- `while app_thread_per_core * core_per_node < app_cpu_per_node`. -/
def findThreads (corePerNode appCpuPerNode : ℕ) : ℕ → ℕ → Option ℕ
  | 0, _ => none
  | fuel + 1, appThreadPerCore =>
    if appThreadPerCore * corePerNode < appCpuPerNode then
      findThreads corePerNode appCpuPerNode fuel (appThreadPerCore + 1)
    else some appThreadPerCore

/-- The positions of a rank whose highest core has the index. -/
def cpuRange (corePerNode appThreadPerCore appCorePerRank : ℕ) (coreIndex : ℤ) : List ℤ :=
  (List.range appThreadPerCore).flatMap fun (ht : ℕ) =>
    (List.range appCorePerRank).map fun (k : ℕ) => coreIndex - k + ht * corePerNode

/-- `allowed_cpuset[ii]`: a negative index counts from the end. -/
def getItem (allowedCpuset : List ℕ) (ii : ℤ) : Except Error ℕ :=
  let i := if ii < 0 then allowedCpuset.length + ii else ii
  if i < 0 then .error .index
  else (allowedCpuset[i.toNat]?).elim (.error .index) .ok

namespace Launcher

variable (l : Launcher)

/-- The number of cores that are allowed. -/
def corePerNode : ℕ := l.allowedCpuset.length / l.threadPerCore

/-- The number of logical CPUs that the application asks for. -/
def appCpuPerNode : ℕ := l.numAppMask * l.cpuPerRank

/-- The number of cores of a rank. -/
def appCorePerRank (appThreadPerCore : ℕ) : ℕ :=
  l.cpuPerRank / appThreadPerCore + if l.cpuPerRank % appThreadPerCore > 0 then 1 else 0

section Assign

variable (appThreadPerCore appCorePerRank : ℕ) (isGeopmctl : Bool)

/-- The loop over ranks, from the highest: the core index and the sets so far. -/
def assignRanks : ℕ → ℤ × List (List ℤ) → ℤ × List (List ℤ)
  | 0, st => st
  | rank + 1, (coreIndex, result) =>
    let positions := cpuRange l.corePerNode appThreadPerCore appCorePerRank coreIndex
    assignRanks rank
      (coreIndex - appCorePerRank, if isGeopmctl then result else positions :: result)

/-- The loop over sockets, from the highest, with the boundary below the socket. -/
def assignSockets : ℕ → ℤ → ℤ × List (List ℤ) → ℤ × List (List ℤ)
  | 0, _, st => st
  | socket + 1, socketBoundary, st =>
    let st := l.assignRanks appThreadPerCore appCorePerRank isGeopmctl
      (l.numAppMask / l.numSocket) st
    assignSockets socket (socketBoundary - l.corePerSocket)
      (if socket = 0 then st else (socketBoundary - 1, st.2))

/-- The core index and the sets after all ranks. -/
def assign : ℤ × List (List ℤ) :=
  if l.numAppMask % l.numSocket = 0 then
    l.assignSockets appThreadPerCore appCorePerRank isGeopmctl l.numSocket
      (l.corePerSocket * (l.numSocket - 1)) (l.corePerNode - 1, [])
  else
    l.assignRanks appThreadPerCore appCorePerRank isGeopmctl l.numAppMask (l.corePerNode - 1, [])

end Assign

def geopmCtlCpu (appThreadPerCore : ℕ) (coreIndex : ℤ) : ℤ :=
  if coreIndex ≤ 0 then
    if l.allowHtPinning && decide (l.corePerNode * appThreadPerCore < l.numLinuxCpu) then
      l.corePerNode * appThreadPerCore
    else 0
  else 1

/-- The checks of `affinity_list`. -/
def checks (appThreadPerCore : ℕ) : Except Error Unit := do
  if l.threadPerCore < appThreadPerCore then
    throw (.runtime ("<geopm> geopmpy.launcher: Cannot oversubscribe hardware threads; " ++
      "requested threads per core: " ++ toString appThreadPerCore ++ ", hardware threads per core: " ++
      toString l.threadPerCore ++ "."))
  if l.corePerNode < l.numAppMask then
    throw (.runtime "<geopm> geopmpy.launcher: Cores cannot be shared between MPI ranks")
  if !l.allowHtPinning && decide (1 < appThreadPerCore) then
    throw (.runtime ("<geopm> geopmpy.launcher: Hyperthreads needed to satisfy ranks/threads " ++
      "configuration, but forbidden by --geopm-hyperthreads-disable."))
  if l.numLinuxCpu < l.appCpuPerNode then
    throw (.runtime ("<geopm> geopmpy.launcher: Requested more application threads per node " ++
      "than the number of Linux logical CPUs"))
  if l.corePerNode < l.appCorePerRank appThreadPerCore * l.numAppMask then
    throw (.runtime "<geopm> geopmpy.launcher: Cores cannot be shared between MPI ranks")

/-- `affinity_list` up to the positions. -/
def positions (fuel : ℕ) (isGeopmctl : Bool) : Except Error (List (List ℤ)) :=
  match findThreads l.corePerNode l.appCpuPerNode fuel 1 with
  | none => .error .outOfFuel
  | some appThreadPerCore => do
    l.checks appThreadPerCore
    -- without ranks the loop over sockets uses a rank that is not bound
    if l.numAppMask / l.numSocket = 0 ∧ l.numAppMask % l.numSocket = 0 then throw .unboundLocal
    let (coreIndex, result) :=
      l.assign appThreadPerCore (l.appCorePerRank appThreadPerCore) isGeopmctl
    pure (if l.ctl = .process ∨ isGeopmctl then
      [l.geopmCtlCpu appThreadPerCore coreIndex] :: result else result)

def affinityList (fuel : ℕ) (isGeopmctl : Bool) : Except Error (List (Finset ℕ)) := do
  let result ← l.positions fuel isGeopmctl
  result.mapM fun jj => (jj.mapM (getItem l.allowedCpuset)).map List.toFinset

/-- The sets of the controller and of the ranks: a controller that is launched by itself has a list
of its own. -/
def launchSets (fuel : ℕ) : Except Error (List (Finset ℕ) × List (Finset ℕ)) := do
  let sets ← l.affinityList fuel false
  match l.ctl with
  | .process => pure (sets.take 1, sets.drop 1)
  | .pthread => pure ([], sets)
  | .application => pure (← l.affinityList fuel true, sets)

end Launcher

/-! ### Dealing cores -/

theorem mem_cpuRange {core threads cores : ℕ} {x p : ℤ} :
    p ∈ cpuRange core threads cores x ↔ ∃ ht < threads, ∃ k < cores, p = x - k + ht * core := by
  unfold cpuRange
  rw [List.mem_flatMap]
  refine exists_congr fun ht => and_congr mem_range ?_
  rw [mem_map]
  exact exists_congr fun k => and_congr mem_range eq_comm

/-- Ranks with `cores` cores each, from the cores `tops` downwards, above the core `low`. -/
structure Dealt (core cores : ℕ) (low : ℤ) (tops : List ℤ) : Prop where
  apart : tops.Pairwise fun x y => x + (cores : ℤ) ≤ y
  within : ∀ x ∈ tops, low + cores ≤ x ∧ x < core

/-- Every core above `low` belongs to a rank. -/
def Covered (core cores : ℕ) (low : ℤ) (tops : List ℤ) : Prop :=
  ∀ p, low < p → p < core → ∃ x ∈ tops, x - cores < p ∧ p ≤ x

theorem Dealt.mono {core cores : ℕ} {low low' : ℤ} {tops : List ℤ} (h : Dealt core cores low tops)
    (hle : low' ≤ low) : Dealt core cores low' tops :=
  ⟨h.apart, fun x hx => ⟨by have := (h.within x hx).1; omega, (h.within x hx).2⟩⟩

/-- The next rank gets the highest cores that are left. -/
theorem Dealt.cons {core cores : ℕ} {low : ℤ} {tops : List ℤ} (h : Dealt core cores low tops)
    (hlow : low < core) : Dealt core cores (low - cores) (low :: tops) := by
  refine ⟨pairwise_cons.mpr ⟨fun x hx => (h.within x hx).1, h.apart⟩, ?_⟩
  rintro x hx
  rcases mem_cons.mp hx with rfl | hx
  · omega
  · have := h.within x hx
    omega

theorem Covered.cons {core cores : ℕ} {low : ℤ} {tops : List ℤ} (h : Covered core cores low tops) :
    Covered core cores (low - cores) (low :: tops) := by
  intro p hlow hcore
  by_cases hp : p ≤ low
  · exact ⟨low, mem_cons_self, hlow, hp⟩
  · obtain ⟨x, hx, hpx⟩ := h p (by omega) hcore
    exact ⟨x, mem_cons_of_mem _ hx, hpx⟩

namespace Launcher

section Deal

variable {cores : ℕ} (l : Launcher) (threads : ℕ)

/-- The sets of ranks with these highest cores. -/
def setsOf (cores : ℕ) (tops : List ℤ) : List (List ℤ) :=
  tops.map (cpuRange l.corePerNode threads cores)

theorem assignRanks_spec (n : ℕ) {low : ℤ} {tops : List ℤ}
    (h : Dealt l.corePerNode cores low tops) (hlow : low < l.corePerNode) :
    ∃ tops', l.assignRanks threads cores false n (low, l.setsOf threads cores tops) =
        (low - n * cores, l.setsOf threads cores tops') ∧
      Dealt l.corePerNode cores (low - n * cores) tops' ∧ tops'.length = tops.length + n ∧
      (Covered l.corePerNode cores low tops →
        Covered l.corePerNode cores (low - n * cores) tops') := by
  induction n generalizing low tops with
  | zero =>
    refine ⟨tops, ?_, ?_, rfl, ?_⟩
    · simp [assignRanks]
    · simpa using h
    · simp
  | succ n ih =>
    obtain ⟨tops', heq, hdealt, hlength, hcovered⟩ := ih (h.cons hlow) (by omega)
    have hlast : low - cores - n * cores = low - (n + 1 : ℕ) * cores := by push_cast; ring
    rw [hlast] at heq hdealt hcovered
    refine ⟨tops', heq, hdealt, ?_, fun hc => hcovered hc.cons⟩
    rw [hlength, length_cons]
    omega

theorem assignSockets_spec (k : ℕ) {boundary low : ℤ} {tops : List ℤ}
    (h : Dealt l.corePerNode cores low tops) (hlow : low < l.corePerNode)
    (hboundary : boundary = l.corePerSocket * k)
    (hfits : 0 < k → boundary - 1 ≤ low - (l.numAppMask / l.numSocket : ℕ) * cores)
    (hsocket : 0 < k → (l.numAppMask / l.numSocket) * cores ≤ l.corePerSocket) :
    ∃ tops', l.assignSockets threads cores false (k + 1) boundary
          (low, l.setsOf threads cores tops) =
        ((if k = 0 then low else l.corePerSocket - 1) - (l.numAppMask / l.numSocket : ℕ) * cores,
          l.setsOf threads cores tops') ∧
      Dealt l.corePerNode cores
        ((if k = 0 then low else l.corePerSocket - 1) - (l.numAppMask / l.numSocket : ℕ) * cores)
        tops' ∧
      tops'.length = tops.length + (k + 1) * (l.numAppMask / l.numSocket) ∧
      ((0 < k → (l.numAppMask / l.numSocket) * cores = l.corePerSocket ∧
          low = l.corePerSocket * (k + 1) - 1) →
        Covered l.corePerNode cores low tops →
        Covered l.corePerNode cores
          ((if k = 0 then low else l.corePerSocket - 1) -
            (l.numAppMask / l.numSocket : ℕ) * cores) tops') := by
  induction k generalizing boundary low tops with
  | zero =>
    obtain ⟨tops₁, heq, hdealt, hlength, hcovered⟩ :=
      l.assignRanks_spec threads (l.numAppMask / l.numSocket) h hlow
    refine ⟨tops₁, ?_, by simpa using hdealt, by rw [hlength]; omega,
      fun _ => by simpa using hcovered⟩
    rw [assignSockets, heq]
    simp [assignSockets]
  | succ k ih =>
    obtain ⟨tops₁, heq, hdealt, hlength, hcovered⟩ :=
      l.assignRanks_spec threads (l.numAppMask / l.numSocket) h hlow
    have hbelow := hfits (succ_pos k)
    have hn := hsocket (succ_pos k)
    have hstep : boundary - l.corePerSocket = l.corePerSocket * k := by
      rw [hboundary]
      push_cast
      ring
    -- the next socket starts below the boundary
    have hnext : Dealt l.corePerNode cores (boundary - 1) tops₁ := hdealt.mono hbelow
    have hlow' : boundary - 1 < (l.corePerNode : ℤ) := by
      have : (0 : ℤ) ≤ (l.numAppMask / l.numSocket : ℕ) * cores := by positivity
      linarith
    have hn' : ((l.numAppMask / l.numSocket : ℕ) * cores : ℤ) ≤ l.corePerSocket := by
      exact_mod_cast hn
    obtain ⟨tops', heq', hdealt', hlength', hcovered'⟩ :=
      ih hnext hlow' hstep (fun _ => by linarith) fun _ => hn
    have hlast : (if k = 0 then boundary - 1 else (l.corePerSocket : ℤ) - 1) =
        l.corePerSocket - 1 := by
      split_ifs with hk
      · rw [hboundary, hk]
        push_cast
        ring
      · rfl
    rw [hlast] at heq' hdealt' hcovered'
    rw [if_neg (succ_ne_zero k)]
    refine ⟨tops', ?_, hdealt', by rw [hlength', hlength]; ring, fun hfull hc => ?_⟩
    · rw [assignSockets, heq]
      dsimp only
      rw [if_neg (succ_ne_zero k)]
      exact heq'
    · obtain ⟨hall, htop⟩ := hfull (succ_pos k)
      have hall' : ((l.numAppMask / l.numSocket : ℕ) * cores : ℤ) = l.corePerSocket := by
        exact_mod_cast hall
      have hsame : boundary - 1 = low - (l.numAppMask / l.numSocket : ℕ) * cores := by
        rw [hall', htop, hboundary]
        push_cast
        ring
      refine hcovered' (fun _ => ⟨hall, ?_⟩) ?_
      · rw [hboundary]
        push_cast
        ring
      · rw [hsame]
        exact hcovered hc

end Deal

/-! ### The cores and threads of a rank -/

variable (l : Launcher)

/-- The least number of threads of each core that is enough for the application. -/
def leastThreads : ℕ := max 1 ((l.appCpuPerNode + l.corePerNode - 1) / l.corePerNode)

/-- The number of cores of a rank with these threads. -/
def rankCores : ℕ := l.appCorePerRank l.leastThreads

/-- The allowed CPUs fit the cores that are dealt: there is a core, and a rank; the ranks of the
highest socket have allowed cores above those of the other sockets; and there is an allowed CPU
where the controller is to use a thread that the application leaves. -/
structure Fits : Prop where
  core : 0 < l.corePerNode
  rank : 0 < l.numAppMask
  socket : l.numAppMask % l.numSocket = 0 → l.numSocket ≠ 1 →
    l.corePerSocket * (l.numSocket - 1) + l.numAppMask / l.numSocket * l.rankCores ≤ l.corePerNode
  ctl : l.ctl ≠ .pthread → l.allowHtPinning = true →
    (l.assign l.leastThreads l.rankCores false).1 ≤ 0 →
    l.corePerNode * l.leastThreads < l.numLinuxCpu →
    l.corePerNode * l.leastThreads < l.allowedCpuset.length

variable {l}

theorem findThreads_eq {core need least fuel start : ℕ} (hstart : start ≤ least)
    (hless : ∀ n, n < least → start ≤ n → n * core < need) (hneed : need ≤ least * core)
    (hfuel : least - start < fuel) : findThreads core need fuel start = some least := by
  induction fuel generalizing start with
  | zero => omega
  | succ fuel ih =>
    unfold findThreads
    split_ifs with h
    · have hne : start ≠ least := by
        rintro rfl
        omega
      exact ih (by omega) (fun n hn hle => hless n hn (by omega)) (by omega)
    · congr 1
      by_contra hne
      exact h (hless start (by omega) le_rfl)

theorem le_leastThreads (hcore : 0 < l.corePerNode) :
    l.appCpuPerNode ≤ l.leastThreads * l.corePerNode := by
  have h : (l.appCpuPerNode + l.corePerNode - 1) / l.corePerNode ≤ l.leastThreads :=
    le_max_right _ _
  have h' := (div_le_iff_le_mul_add_pred hcore).mp h
  rw [Nat.mul_comm]
  omega

theorem findThreads_leastThreads {fuel : ℕ} (hcore : 0 < l.corePerNode)
    (hfuel : l.appCpuPerNode < fuel) :
    findThreads l.corePerNode l.appCpuPerNode fuel 1 = some l.leastThreads := by
  refine findThreads_eq (le_max_left _ _) (fun n hn hle => ?_) (le_leastThreads hcore) ?_
  · have hlt : n < (l.appCpuPerNode + l.corePerNode - 1) / l.corePerNode := by
      unfold leastThreads at hn
      omega
    have h := (Nat.le_div_iff_mul_le hcore).mp hlt
    rw [succ_mul] at h
    omega
  · have hle : (l.appCpuPerNode + l.corePerNode - 1) / l.corePerNode ≤ l.appCpuPerNode := by
      rw [div_le_iff_le_mul_add_pred hcore]
      have := Nat.le_mul_of_pos_left l.appCpuPerNode hcore
      omega
    unfold leastThreads
    omega

/-- A rank has as many CPUs as it asks for. -/
theorem cpuPerRank_le (threads : ℕ) (hthreads : 0 < threads) :
    l.cpuPerRank ≤ l.appCorePerRank threads * threads := by
  unfold appCorePerRank
  have h := div_add_mod l.cpuPerRank threads
  have hlt := mod_lt l.cpuPerRank hthreads
  rw [Nat.add_mul, Nat.mul_comm (l.cpuPerRank / threads)]
  split_ifs with hrest <;> omega

/-- What the checks leave. -/
structure Checked (l : Launcher) (threads : ℕ) : Prop where
  thread_le : threads ≤ l.threadPerCore
  pinning : l.allowHtPinning = true ∨ threads ≤ 1
  core_le : l.appCorePerRank threads * l.numAppMask ≤ l.corePerNode

theorem checks_spec (threads : ℕ) :
    (∃ what, l.checks threads = .error (.runtime what)) ∨
      l.checks threads = .ok () ∧ l.Checked threads := by
  unfold checks
  by_cases h₁ : l.threadPerCore < threads
  · exact .inl ⟨_, by rw [if_pos h₁]; rfl⟩
  by_cases h₂ : l.corePerNode < l.numAppMask
  · exact .inl ⟨_, by rw [if_neg h₁, if_pos h₂]; rfl⟩
  by_cases h₃ : (!l.allowHtPinning && decide (1 < threads)) = true
  · exact .inl ⟨_, by rw [if_neg h₁, if_neg h₂, if_pos h₃]; rfl⟩
  by_cases h₄ : l.numLinuxCpu < l.appCpuPerNode
  · exact .inl ⟨_, by rw [if_neg h₁, if_neg h₂, if_neg h₃, if_pos h₄]; rfl⟩
  by_cases h₅ : l.corePerNode < l.appCorePerRank threads * l.numAppMask
  · exact .inl ⟨_, by rw [if_neg h₁, if_neg h₂, if_neg h₃, if_neg h₄, if_pos h₅]; rfl⟩
  refine .inr ⟨by rw [if_neg h₁, if_neg h₂, if_neg h₃, if_neg h₄, if_neg h₅]; rfl, ?_⟩
  refine ⟨not_lt.mp h₁, ?_, not_lt.mp h₅⟩
  rw [Bool.and_eq_true, not_and, decide_eq_true_iff, not_lt] at h₃
  cases hpin : l.allowHtPinning with
  | true => exact .inl rfl
  | false => exact .inr (h₃ (by rw [hpin]; rfl))

theorem corePerNode_le (l : Launcher) : l.corePerNode ≤ l.numSocket * l.corePerSocket :=
  Nat.div_le_of_le_mul (by
    rw [Nat.mul_comm]
    exact l.length_le.trans l.numLinuxCpu_le)

/-- All ranks get cores; if none is left, every core has a rank. -/
theorem assign_spec (hfits : l.Fits) (hchecked : l.Checked l.leastThreads) :
    ∃ low tops, l.assign l.leastThreads l.rankCores false =
        (low, l.setsOf l.leastThreads l.rankCores tops) ∧
      Dealt l.corePerNode l.rankCores low tops ∧ -1 ≤ low ∧ low < l.corePerNode ∧
      tops.length = l.numAppMask ∧ (low = -1 → Covered l.corePerNode l.rankCores low tops) := by
  have hnone : Dealt l.corePerNode l.rankCores (l.corePerNode - 1) [] := ⟨.nil, by simp⟩
  have hall : Covered l.corePerNode l.rankCores (l.corePerNode - 1) [] := by
    intro p hlow hcore
    omega
  have hcores : l.rankCores * l.numAppMask ≤ l.corePerNode := hchecked.core_le
  have hnode : ((l.rankCores * l.numAppMask : ℕ) : ℤ) ≤ l.corePerNode := by exact_mod_cast hcores
  have htop : (l.corePerNode : ℤ) - 1 < l.corePerNode := by omega
  unfold assign
  by_cases hrem : l.numAppMask % l.numSocket = 0
  · rw [if_pos hrem]
    obtain ⟨k, hk⟩ := exists_eq_succ_of_ne_zero (Nat.pos_iff_ne_zero.mp l.numSocket_pos)
    have hranks : (k + 1) * (l.numAppMask / l.numSocket) = l.numAppMask := by
      rw [← succ_eq_add_one, ← hk]
      exact Nat.mul_div_cancel' (dvd_of_mod_eq_zero hrem)
    have hboundary : (l.corePerSocket : ℤ) * (l.numSocket - 1) = l.corePerSocket * k := by
      rw [hk]
      push_cast
      ring
    have hsocket : 0 < k → l.corePerSocket * k + l.numAppMask / l.numSocket * l.rankCores ≤
        l.corePerNode := by
      intro hpos
      have h := hfits.socket hrem (by omega)
      rwa [hk, succ_sub_one, ← hk] at h
    have hle : l.corePerNode ≤ l.corePerSocket * k + l.corePerSocket := by
      have h := l.corePerNode_le
      rw [hk, succ_mul, Nat.mul_comm] at h
      exact h
    have hspec := l.assignSockets_spec l.leastThreads k hnone htop hboundary
    rw [hboundary, hk]
    rw [hboundary] at hspec
    generalize l.numAppMask / l.numSocket = n at *
    obtain ⟨tops, heq, hdealt, hlength, hcovered⟩ := hspec
      (fun hpos => by
        have h := hsocket hpos
        zify at h
        linarith)
      (fun hpos => by
        have h := hsocket hpos
        omega)
    have hn : k = 0 → (n : ℤ) * l.rankCores ≤ l.corePerNode := by
      rintro rfl
      rw [← hranks] at hnode
      push_cast at hnode
      linarith
    refine ⟨_, tops, heq, hdealt, ?_, ?_, ?_, fun hlow => hcovered (fun hpos => ?_) hall⟩
    · split_ifs with hzero
      · linarith [hn hzero]
      · have h := hsocket (Nat.pos_of_ne_zero hzero)
        zify at h hle
        linarith
    · have hnonneg : (0 : ℤ) ≤ n * l.rankCores := by positivity
      split_ifs with hzero
      · linarith
      · have h := hsocket (Nat.pos_of_ne_zero hzero)
        have hmul : l.corePerSocket ≤ l.corePerSocket * k :=
          Nat.le_mul_of_pos_right _ (Nat.pos_of_ne_zero hzero)
        zify at h hmul
        linarith
    · rw [hlength, hranks]
      exact Nat.zero_add _
    · have h := hsocket hpos
      rw [if_neg (Nat.pos_iff_ne_zero.mp hpos)] at hlow
      have hsame : n * l.rankCores = l.corePerSocket := by
        zify
        linarith
      refine ⟨hsame, ?_⟩
      have hcore : l.corePerNode = l.corePerSocket * (k + 1) := by
        rw [mul_succ]
        omega
      rw [hcore]
      push_cast
      ring
  · rw [if_neg hrem]
    obtain ⟨tops, heq, hdealt, hlength, hcovered⟩ :=
      l.assignRanks_spec l.leastThreads l.numAppMask hnone htop
    refine ⟨_, tops, heq, hdealt, ?_, ?_, by rw [hlength]; simp, fun _ => hcovered hall⟩
    · push_cast at hnode
      linarith
    · have : (0 : ℤ) ≤ l.numAppMask * l.rankCores := by positivity
      linarith

/-! ### Positions and CPUs -/

theorem assignRanks_geopmctl (threads cores n : ℕ) (low : ℤ) (sets : List (List ℤ)) :
    l.assignRanks threads cores true n (low, []) =
      ((l.assignRanks threads cores false n (low, sets)).1, []) := by
  induction n generalizing low sets with
  | zero => rfl
  | succ n ih => exact ih _ _

theorem assignSockets_geopmctl (threads cores n : ℕ) (boundary low : ℤ) (sets : List (List ℤ)) :
    l.assignSockets threads cores true n boundary (low, []) =
      ((l.assignSockets threads cores false n boundary (low, sets)).1, []) := by
  induction n generalizing boundary low sets with
  | zero => rfl
  | succ n ih =>
    unfold assignSockets
    rw [assignRanks_geopmctl _ _ _ _ sets]
    dsimp only
    split_ifs
    · exact ih _ _ _
    · exact ih _ _ _

theorem assign_geopmctl (threads cores : ℕ) :
    l.assign threads cores true = ((l.assign threads cores false).1, []) := by
  unfold assign
  split_ifs
  · exact assignSockets_geopmctl _ _ _ _ _ _
  · exact assignRanks_geopmctl _ _ _ _ _

/-- The positions of a launch, or the `RuntimeError`. -/
theorem positions_spec {fuel : ℕ} (hfits : l.Fits) (hfuel : l.appCpuPerNode < fuel) :
    (∃ what, ∀ isGeopmctl, l.positions fuel isGeopmctl = .error (.runtime what)) ∨
      l.Checked l.leastThreads ∧ ∀ isGeopmctl, l.positions fuel isGeopmctl =
        .ok (if l.ctl = .process ∨ isGeopmctl = true then
          [l.geopmCtlCpu l.leastThreads (l.assign l.leastThreads l.rankCores false).1] ::
            (l.assign l.leastThreads l.rankCores isGeopmctl).2
          else (l.assign l.leastThreads l.rankCores isGeopmctl).2) := by
  have hfind := findThreads_leastThreads hfits.core hfuel
  unfold positions
  rw [hfind]
  dsimp only
  rcases l.checks_spec l.leastThreads with ⟨what, hwhat⟩ | ⟨hok, hchecked⟩
  · refine .inl ⟨what, fun isGeopmctl => ?_⟩
    rw [hwhat]
    rfl
  · refine .inr ⟨hchecked, fun isGeopmctl => ?_⟩
    have hrank : ¬ (l.numAppMask / l.numSocket = 0 ∧ l.numAppMask % l.numSocket = 0) := by
      rintro ⟨hdiv, hmod⟩
      have h := div_add_mod l.numAppMask l.numSocket
      rw [hdiv, hmod] at h
      have := hfits.rank
      omega
    have hindex : (l.assign l.leastThreads l.rankCores isGeopmctl).1 =
        (l.assign l.leastThreads l.rankCores false).1 := by
      cases isGeopmctl with
      | false => rfl
      | true => rw [assign_geopmctl]
    rw [hok, ← hindex, if_neg hrank]
    change Except.ok (if _ then _ else _) = _
    rfl

/-- The CPU at a position. -/
def cpuAt (l : Launcher) (p : ℤ) : ℕ := (l.allowedCpuset[p.toNat]?).getD 0

/-- The set of CPUs at the positions. -/
def cpuSet (l : Launcher) (ps : List ℤ) : Finset ℕ := (ps.map l.cpuAt).toFinset

/-- The position is one of the list. -/
def Inside (l : Launcher) (p : ℤ) : Prop := 0 ≤ p ∧ p < l.allowedCpuset.length

theorem Inside.lt {p : ℤ} (h : l.Inside p) : p.toNat < l.allowedCpuset.length := by
  have := h.1
  have := h.2
  omega

theorem cpuAt_eq {p : ℤ} (h : l.Inside p) : l.cpuAt p = l.allowedCpuset.get ⟨p.toNat, h.lt⟩ := by
  unfold cpuAt
  rw [getElem?_eq_getElem h.lt]
  rfl

theorem getItem_eq {p : ℤ} (h : l.Inside p) : getItem l.allowedCpuset p = .ok (l.cpuAt p) := by
  unfold getItem
  have h0 := h.1
  rw [if_neg (not_lt.mpr h0)]
  dsimp only
  rw [if_neg (not_lt.mpr h0), getElem?_eq_getElem h.lt, cpuAt_eq h]
  rfl

theorem cpuAt_mem {p : ℤ} (h : l.Inside p) : l.cpuAt p ∈ l.allowedCpuset := by
  rw [cpuAt_eq h]
  exact get_mem _ _

theorem cpuAt_inj {p q : ℤ} (hp : l.Inside p) (hq : l.Inside q) (h : l.cpuAt p = l.cpuAt q) :
    p = q := by
  rw [cpuAt_eq hp, cpuAt_eq hq, List.Nodup.get_inj_iff l.nodup, Fin.mk.injEq] at h
  have := hp.1
  have := hq.1
  omega

theorem mapM_getItem {ps : List ℤ} (h : ∀ p ∈ ps, l.Inside p) :
    ps.mapM (getItem l.allowedCpuset) = .ok (ps.map l.cpuAt) := by
  rw [Prog.mapM_eq_ok, forall₂_map_right_iff, forall₂_same]
  exact fun p hp => getItem_eq (h p hp)

/-- The sets of CPUs at positions of the list. -/
theorem affinityList_eq {fuel : ℕ} {isGeopmctl : Bool} {sets : List (List ℤ)}
    (hpositions : l.positions fuel isGeopmctl = .ok sets)
    (h : ∀ ps ∈ sets, ∀ p ∈ ps, l.Inside p) :
    l.affinityList fuel isGeopmctl = .ok (sets.map l.cpuSet) := by
  unfold affinityList
  rw [hpositions]
  change sets.mapM _ = _
  rw [Prog.mapM_eq_ok, forall₂_map_right_iff, forall₂_same]
  intro ps hps
  rw [mapM_getItem (h ps hps)]
  rfl

/-! ### The placement -/

/-- The allowed CPUs are one thread of each core, followed by the next threads in the same order. -/
structure Aligned (l : Launcher) (core : ℕ → ℕ) : Prop where
  threads : ∀ i j : ℕ, i < l.corePerNode → i + j * l.corePerNode < l.allowedCpuset.length →
    core (l.cpuAt (i + j * l.corePerNode)) = core (l.cpuAt i)
  cores : ∀ i i' : ℕ, i < l.corePerNode → i' < l.corePerNode →
    core (l.cpuAt i) = core (l.cpuAt i') → i = i'

/-- What the sets of the controller and of the ranks are meant to be.  The controller has a CPU of
its own if one is left: any allowed CPU, or that of a core if threads are not to be pinned. -/
structure Placement (l : Launcher) (ctls ranks : List (Finset ℕ)) : Prop where
  count : ranks.length = l.numAppMask
  own : if l.ctl = .pthread then ctls = [] else ∃ cpu, ctls = [{cpu}]
  disjoint : ranks.Pairwise Disjoint
  size : ∀ s ∈ ranks, s.card = l.rankCores * l.leastThreads ∧ l.cpuPerRank ≤ s.card
  allowed : ∀ s ∈ ctls ++ ranks, ∀ cpu ∈ s, cpu ∈ l.allowedCpuset
  cores : ∀ core, l.Aligned core → ranks.Pairwise fun s s' => ∀ x ∈ s, ∀ y ∈ s', core x ≠ core y
  ctl : (∃ free ∈ if l.allowHtPinning then l.allowedCpuset
      else l.allowedCpuset.take l.corePerNode, ∀ s ∈ ranks, free ∉ s) →
    ∀ s ∈ ctls, ∀ s' ∈ ranks, Disjoint s s'

variable {tops : List ℤ}

/-- A position of a rank is a thread of one of its cores. -/
theorem mem_rank {low x p : ℤ} {core threads cores : ℕ}
    (hdealt : Dealt core cores low tops) (hlow : -1 ≤ low) (hx : x ∈ tops)
    (hp : p ∈ cpuRange core threads cores x) :
    ∃ base : ℤ, low < base ∧ 0 ≤ base ∧ base < core ∧ x - cores < base ∧ base ≤ x ∧
      ∃ ht < threads, p = base + ht * core := by
  obtain ⟨ht, hht, k, hk, rfl⟩ := mem_cpuRange.mp hp
  have h := hdealt.within x hx
  exact ⟨x - k, by omega, by omega, by omega, by omega, by omega, ht, hht, rfl⟩

theorem rank_mem {x base : ℤ} {core threads cores ht : ℕ} (hlow : x - cores < base)
    (hhigh : base ≤ x) (hht : ht < threads) : base + ht * core ∈ cpuRange core threads cores x :=
  mem_cpuRange.mpr ⟨ht, hht, (x - base).toNat, by omega, by
    rw [Int.toNat_of_nonneg (by omega)]
    ring⟩

theorem thread_inj {core ht ht' : ℕ} {base base' : ℤ} (h0 : 0 ≤ base) (h1 : base < core)
    (h0' : 0 ≤ base') (h1' : base' < core) (h : base + ht * core = base' + ht' * core) :
    base = base' ∧ ht = ht' := by
  have hbase : base = base' := by
    have hmod := congrArg (· % (core : ℤ)) h
    simpa [Int.add_mul_emod_self_right, Int.emod_eq_of_lt h0 h1, Int.emod_eq_of_lt h0' h1'] using
      hmod
  refine ⟨hbase, ?_⟩
  subst hbase
  have hcore : (core : ℤ) ≠ 0 := by omega
  have hht : (ht : ℤ) = ht' := mul_right_cancel₀ hcore (add_left_cancel h)
  exact_mod_cast hht

theorem cpuRange_nodup {low x : ℤ} {core threads cores : ℕ}
    (hdealt : Dealt core cores low tops) (hlow : -1 ≤ low) (hx : x ∈ tops) :
    (cpuRange core threads cores x).Nodup := by
  have hwithin := hdealt.within x hx
  unfold cpuRange
  rw [nodup_flatMap]
  refine ⟨fun ht _ => nodup_range.map fun k k' h => ?_, nodup_range.imp fun hne => ?_⟩
  · have : (x - k : ℤ) = x - k' := add_right_cancel h
    omega
  · intro p hp hp'
    obtain ⟨k, hk, rfl⟩ := mem_map.mp hp
    obtain ⟨k', hk', heq⟩ := mem_map.mp hp'
    rw [mem_range] at hk hk'
    exact hne (thread_inj (by omega) (by omega) (by omega) (by omega) heq).2.symm

theorem cpuRange_length (core threads cores : ℕ) (x : ℤ) :
    (cpuRange core threads cores x).length = cores * threads := by
  unfold cpuRange
  rw [length_flatMap]
  simp [Nat.mul_comm]

theorem mul_threads_le (l : Launcher) {threads : ℕ} (h : threads ≤ l.threadPerCore) :
    threads * l.corePerNode ≤ l.allowedCpuset.length :=
  (Nat.mul_le_mul_right _ h).trans (mul_div_le _ _)

theorem inside_of_mem_rank {low x p : ℤ} {threads cores : ℕ}
    (hdealt : Dealt l.corePerNode cores low tops) (hlow : -1 ≤ low)
    (hthreads : threads ≤ l.threadPerCore) (hx : x ∈ tops)
    (hp : p ∈ cpuRange l.corePerNode threads cores x) :
    l.Inside p ∧ p < threads * l.corePerNode := by
  obtain ⟨base, -, h0, hcore, -, -, ht, hht, rfl⟩ := mem_rank hdealt hlow hx hp
  have hmul : (ht + 1) * l.corePerNode ≤ threads * l.corePerNode := Nat.mul_le_mul_right _ hht
  have hle := l.mul_threads_le hthreads
  have hnonneg : (0 : ℤ) ≤ ht * l.corePerNode := by positivity
  zify at hmul hle
  refine ⟨⟨by linarith, ?_⟩, ?_⟩
  · linarith
  · linarith

theorem mem_cpuSet {ps : List ℤ} {cpu : ℕ} :
    cpu ∈ l.cpuSet ps ↔ ∃ p ∈ ps, l.cpuAt p = cpu := by
  unfold cpuSet
  rw [mem_toFinset, mem_map]

section Placed

variable {low : ℤ} {tops : List ℤ} {threads cores : ℕ}

/-- The sets of the ranks. -/
def rankSets (l : Launcher) (threads cores : ℕ) (tops : List ℤ) : List (Finset ℕ) :=
  tops.map fun x => l.cpuSet (cpuRange l.corePerNode threads cores x)

theorem mem_rankSets {s : Finset ℕ} :
    s ∈ l.rankSets threads cores tops ↔
      ∃ x ∈ tops, l.cpuSet (cpuRange l.corePerNode threads cores x) = s := mem_map

section

variable (hdealt : Dealt l.corePerNode cores low tops)
include hdealt

/-- Ranks have CPUs of different cores. -/
theorem rankSets_cores (hlow : -1 ≤ low)
    (hthreads : threads ≤ l.threadPerCore) {core : ℕ → ℕ} (haligned : l.Aligned core) :
    (l.rankSets threads cores tops).Pairwise fun s s' => ∀ x ∈ s, ∀ y ∈ s', core x ≠ core y := by
  unfold rankSets
  rw [pairwise_map]
  refine hdealt.apart.imp_of_mem fun {x y} hx hy happart cpu hcpu cpu' hcpu' hsame => ?_
  obtain ⟨p, hp, rfl⟩ := mem_cpuSet.mp hcpu
  obtain ⟨q, hq, rfl⟩ := mem_cpuSet.mp hcpu'
  have hinside := (inside_of_mem_rank hdealt hlow hthreads hx hp).1
  have hinside' := (inside_of_mem_rank hdealt hlow hthreads hy hq).1
  obtain ⟨base, -, h0, hcore, -, hle, ht, hht, rfl⟩ := mem_rank hdealt hlow hx hp
  obtain ⟨base', -, h0', hcore', hlt', -, ht', hht', rfl⟩ := mem_rank hdealt hlow hy hq
  obtain ⟨i, rfl⟩ := Int.eq_ofNat_of_zero_le h0
  obtain ⟨i', rfl⟩ := Int.eq_ofNat_of_zero_le h0'
  rw [haligned.threads i ht (by omega) (by have := hinside.2; exact_mod_cast this),
    haligned.threads i' ht' (by omega) (by have := hinside'.2; exact_mod_cast this)] at hsame
  have heq := haligned.cores i i' (by omega) (by omega) hsame
  omega

theorem rankSets_disjoint (hlow : -1 ≤ low)
    (hthreads : threads ≤ l.threadPerCore) :
    (l.rankSets threads cores tops).Pairwise Disjoint := by
  unfold rankSets
  rw [pairwise_map]
  refine hdealt.apart.imp_of_mem fun {x y} hx hy happart => ?_
  rw [Finset.disjoint_left]
  intro cpu hcpu hcpu'
  obtain ⟨p, hp, rfl⟩ := mem_cpuSet.mp hcpu
  obtain ⟨q, hq, heq⟩ := mem_cpuSet.mp hcpu'
  have hinside := (inside_of_mem_rank hdealt hlow hthreads hx hp).1
  have hinside' := (inside_of_mem_rank hdealt hlow hthreads hy hq).1
  obtain rfl := cpuAt_inj hinside' hinside heq
  obtain ⟨base, -, h0, hcore, -, hle, ht, hht, rfl⟩ := mem_rank hdealt hlow hx hp
  obtain ⟨base', -, h0', hcore', hlt', -, ht', hht', hq'⟩ := mem_rank hdealt hlow hy hq
  have := (thread_inj h0 hcore h0' hcore' hq').1
  omega

theorem rankSets_card (hlow : -1 ≤ low)
    (hthreads : threads ≤ l.threadPerCore) {s : Finset ℕ} (hs : s ∈ l.rankSets threads cores tops) :
    s.card = cores * threads := by
  obtain ⟨x, hx, rfl⟩ := mem_rankSets.mp hs
  unfold cpuSet
  rw [toFinset_card_of_nodup, length_map, cpuRange_length]
  refine List.Nodup.map_on (fun p hp q hq heq => ?_) (cpuRange_nodup hdealt hlow hx)
  exact cpuAt_inj (inside_of_mem_rank hdealt hlow hthreads hx hp).1
    (inside_of_mem_rank hdealt hlow hthreads hx hq).1 heq

theorem rankSets_allowed (hlow : -1 ≤ low)
    (hthreads : threads ≤ l.threadPerCore) {s : Finset ℕ} (hs : s ∈ l.rankSets threads cores tops)
    {cpu : ℕ} (hcpu : cpu ∈ s) : cpu ∈ l.allowedCpuset := by
  obtain ⟨x, hx, rfl⟩ := mem_rankSets.mp hs
  obtain ⟨p, hp, rfl⟩ := mem_cpuSet.mp hcpu
  exact cpuAt_mem (inside_of_mem_rank hdealt hlow hthreads hx hp).1

end

theorem mem_rankSets_of_covered (hcovered : Covered l.corePerNode cores (-1) tops)
    (hcore : 0 < l.corePerNode) {i : ℕ} (hi : i < threads * l.corePerNode) :
    ∃ s ∈ l.rankSets threads cores tops, l.cpuAt i ∈ s := by
  have hmod := mod_lt i hcore
  obtain ⟨x, hx, hlt, hle⟩ := hcovered (i % l.corePerNode : ℕ) (by omega) (by exact_mod_cast hmod)
  refine ⟨_, mem_rankSets.mpr ⟨x, hx, rfl⟩, mem_cpuSet.mpr ⟨i, ?_, rfl⟩⟩
  have h := @rank_mem _ _ l.corePerNode _ _ _ hlt hle ((Nat.div_lt_iff_lt_mul hcore).mpr hi)
  have hsum : ((i % l.corePerNode : ℕ) + (i / l.corePerNode : ℕ) * l.corePerNode : ℤ) = i := by
    exact_mod_cast mod_add_div' i l.corePerNode
  rwa [hsum] at h

/-- The position of the controller is that of a rank only if every core has a rank, and there is no
thread for the controller. -/
theorem geopmCtlCpu_of_mem_rank (hdealt : Dealt l.corePerNode cores low tops) (hlow : -1 ≤ low)
    (hthreads : threads ≤ l.threadPerCore) {x : ℤ} (hx : x ∈ tops)
    (h : l.geopmCtlCpu threads low ∈ cpuRange l.corePerNode threads cores x) :
    low = -1 ∧ (l.allowHtPinning = true → l.numLinuxCpu ≤ l.corePerNode * threads) := by
  obtain ⟨base, hbase, h0, hcore, -, -, ht, hht, hp⟩ := mem_rank hdealt hlow hx h
  have hless := (inside_of_mem_rank hdealt hlow hthreads hx h).2
  have hnonneg : (0 : ℤ) ≤ ht * l.corePerNode := by positivity
  unfold geopmCtlCpu at hp hless
  by_cases hleft : low ≤ 0
  · rw [if_pos hleft] at hp hless
    split_ifs at hp hless with hctl
    · -- the thread is above those of the application
      rw [mul_comm] at hless
      exact absurd hless (lt_irrefl _)
    · refine ⟨by omega, fun hpin => ?_⟩
      rw [hpin, Bool.true_and, decide_eq_true_iff] at hctl
      exact not_lt.mp hctl
  · -- two cores are left
    rw [if_neg hleft] at hp
    omega

theorem no_free (hcore : 0 < l.corePerNode) (hthreads : 0 < threads)
    (hcovered : Covered l.corePerNode cores (-1) tops)
    (hfull : l.allowHtPinning = true → l.numLinuxCpu ≤ l.corePerNode * threads) {free : ℕ}
    (hfree : free ∈ if l.allowHtPinning then l.allowedCpuset
      else l.allowedCpuset.take l.corePerNode) :
    ∃ s ∈ l.rankSets threads cores tops, free ∈ s := by
  obtain ⟨i, hi, hlt, heq⟩ : ∃ i, i < threads * l.corePerNode ∧
      ∃ hlt : i < l.allowedCpuset.length, l.allowedCpuset.get ⟨i, hlt⟩ = free := by
    split_ifs at hfree with hpin
    · obtain ⟨⟨i, hlt⟩, heq⟩ := mem_iff_get.mp hfree
      have h := hfull hpin
      have hle := l.length_le
      rw [Nat.mul_comm] at h
      exact ⟨i, by omega, hlt, heq⟩
    · obtain ⟨i, hlt, heq⟩ := mem_take_iff_getElem.mp hfree
      have hle : l.corePerNode ≤ threads * l.corePerNode := Nat.le_mul_of_pos_left _ hthreads
      exact ⟨i, by omega, by omega, heq⟩
  obtain ⟨s, hs, hmem⟩ := mem_rankSets_of_covered hcovered hcore hi
  refine ⟨s, hs, ?_⟩
  have hinside : l.Inside i := ⟨by omega, by exact_mod_cast hlt⟩
  rw [cpuAt_eq hinside] at hmem
  rwa [← heq]

end Placed

theorem inside_geopmCtlCpu (hfits : l.Fits) (hctl : l.ctl ≠ .pthread) {low : ℤ}
    (hlow : low = (l.assign l.leastThreads l.rankCores false).1) (hless : low < l.corePerNode) :
    l.Inside (l.geopmCtlCpu l.leastThreads low) := by
  have hcore := hfits.core
  have hle : l.corePerNode ≤ l.allowedCpuset.length := Nat.div_le_self _ _
  unfold geopmCtlCpu Inside
  by_cases hleft : low ≤ 0
  · rw [if_pos hleft]
    split_ifs with hpin
    · rw [Bool.and_eq_true, decide_eq_true_iff] at hpin
      have h := hfits.ctl hctl hpin.1 (hlow ▸ hleft) hpin.2
      exact ⟨by positivity, by exact_mod_cast h⟩
    · omega
  · rw [if_neg hleft]
    omega

theorem placement_of_dealt {low : ℤ} {ctls : List (Finset ℕ)} (hfits : l.Fits)
    (hchecked : l.Checked l.leastThreads)
    (hdealt : Dealt l.corePerNode l.rankCores low tops) (hlow : -1 ≤ low)
    (hlength : tops.length = l.numAppMask)
    (hcovered : low = -1 → Covered l.corePerNode l.rankCores low tops)
    (hctls : ctls = if l.ctl = .pthread then []
      else [l.cpuSet [l.geopmCtlCpu l.leastThreads low]])
    (hinside : l.ctl ≠ .pthread → l.Inside (l.geopmCtlCpu l.leastThreads low)) :
    l.Placement ctls (l.rankSets l.leastThreads l.rankCores tops) := by
  have hthreads := hchecked.thread_le
  have hpos : 0 < l.leastThreads := Nat.lt_of_lt_of_le Nat.one_pos (le_max_left _ _)
  have hmem : ∀ s ∈ ctls, l.ctl ≠ .pthread ∧ s = {l.cpuAt (l.geopmCtlCpu l.leastThreads low)} := by
    intro s hs
    rw [hctls] at hs
    split_ifs at hs with hctl
    · cases hs
    · rw [mem_singleton.mp hs]
      exact ⟨hctl, rfl⟩
  refine ⟨by rw [← hlength]; exact length_map _, ?_, rankSets_disjoint hdealt hlow hthreads,
    fun s hs => ?_, fun s hs cpu hcpu => ?_,
    fun core haligned => rankSets_cores hdealt hlow hthreads haligned, ?_⟩
  · rw [hctls]
    split_ifs with hctl
    · rfl
    · exact ⟨_, rfl⟩
  · rw [rankSets_card hdealt hlow hthreads hs]
    exact ⟨rfl, cpuPerRank_le _ hpos⟩
  · rcases mem_append.mp hs with hs | hs
    · obtain ⟨hctl, rfl⟩ := hmem s hs
      rw [Finset.mem_singleton.mp hcpu]
      exact cpuAt_mem (hinside hctl)
    · exact rankSets_allowed hdealt hlow hthreads hs hcpu
  · rintro ⟨free, hfree, hnot⟩ s hs s' hs'
    obtain ⟨hctl, rfl⟩ := hmem s hs
    rw [Finset.disjoint_singleton_left]
    intro hcpu
    obtain ⟨x, hx, rfl⟩ := mem_rankSets.mp hs'
    obtain ⟨p, hp, heq⟩ := mem_cpuSet.mp hcpu
    obtain rfl := cpuAt_inj (inside_of_mem_rank hdealt hlow hthreads hx hp).1 (hinside hctl) heq
    obtain ⟨rfl, hfull⟩ := geopmCtlCpu_of_mem_rank hdealt hlow hthreads hx hp
    obtain ⟨s, hs, hmem⟩ := no_free hfits.core hpos (hcovered rfl) hfull hfree
    exact hnot s hs hmem

/-- A launch has a placement, and reads no position outside of the list of CPUs, or it raises a
`RuntimeError`. -/
theorem launchSets_spec (l : Launcher) (fuel : ℕ) (hfits : l.Fits)
    (hfuel : l.appCpuPerNode < fuel) :
    (∃ what, l.launchSets fuel = .error (.runtime what)) ∨
      (∃ ctls ranks, l.launchSets fuel = .ok (ctls, ranks) ∧ l.Placement ctls ranks) ∧
        ∀ isGeopmctl, (isGeopmctl = true → l.ctl = .application) →
          ∀ sets, l.positions fuel isGeopmctl = .ok sets → ∀ ps ∈ sets, ∀ p ∈ ps, l.Inside p := by
  rcases positions_spec hfits hfuel with ⟨what, hwhat⟩ | ⟨hchecked, hpositions⟩
  · refine .inl ⟨what, ?_⟩
    unfold launchSets affinityList
    rw [hwhat false]
    rfl
  obtain ⟨low, tops, hassign, hdealt, hlow, hless, hlength, hcovered⟩ := assign_spec hfits hchecked
  have hpart : (l.assign l.leastThreads l.rankCores true).2 = [] := by rw [assign_geopmctl]
  have hranks := hpositions false
  have hown := hpositions true
  rw [hassign] at hranks hown
  rw [hpart] at hown
  dsimp only at hranks hown
  rw [if_pos (.inr rfl)] at hown
  simp only [Bool.false_eq_true, or_false] at hranks
  have hinside : l.ctl ≠ .pthread → l.Inside (l.geopmCtlCpu l.leastThreads low) := fun hctl =>
    inside_geopmCtlCpu hfits hctl (by rw [hassign]) hless
  have hrank : ∀ ps ∈ l.setsOf l.leastThreads l.rankCores tops, ∀ p ∈ ps, l.Inside p := by
    intro ps hps p hp
    obtain ⟨x, hx, rfl⟩ := mem_map.mp hps
    exact (inside_of_mem_rank hdealt hlow hchecked.thread_le hx hp).1
  have hplaced : ∀ ctls, ctls = (if l.ctl = .pthread then []
      else [l.cpuSet [l.geopmCtlCpu l.leastThreads low]]) →
      l.Placement ctls (l.rankSets l.leastThreads l.rankCores tops) := fun ctls hctls =>
    placement_of_dealt hfits hchecked hdealt hlow hlength hcovered hctls hinside
  have hreads : ∀ isGeopmctl, (isGeopmctl = true → l.ctl = .application) →
      ∀ sets, l.positions fuel isGeopmctl = .ok sets → ∀ ps ∈ sets, ∀ p ∈ ps, l.Inside p := by
    intro isGeopmctl happlication sets hsets ps hps p hp
    have hctl : isGeopmctl = true ∨ l.ctl = .process → ps = [l.geopmCtlCpu l.leastThreads low] →
        l.Inside p := by
      rintro hcase rfl
      rw [mem_singleton.mp hp]
      refine hinside fun hpthread => ?_
      rcases hcase with htrue | hprocess
      · rw [happlication htrue] at hpthread
        cases hpthread
      · rw [hprocess] at hpthread
        cases hpthread
    cases isGeopmctl with
    | true =>
      rw [hown] at hsets
      cases hsets
      exact hctl (.inl rfl) (mem_singleton.mp hps)
    | false =>
      rw [hranks] at hsets
      cases hsets
      split_ifs at hps with hprocess
      · rcases mem_cons.mp hps with heq | hps
        · exact hctl (.inr hprocess) heq
        · exact hrank ps hps p hp
      · exact hrank ps hps p hp
  refine .inr ⟨?_, hreads⟩
  have hsets := affinityList_eq hranks (hreads false (fun h => (nomatch h)) _ hranks)
  unfold launchSets
  rw [hsets]
  cases hctl : l.ctl with
  | process =>
    refine ⟨_, l.rankSets l.leastThreads l.rankCores tops, ?_, hplaced _ rfl⟩
    simp [hctl, setsOf, rankSets, Function.comp_def]
  | pthread =>
    refine ⟨_, l.rankSets l.leastThreads l.rankCores tops, ?_, hplaced _ rfl⟩
    simp [hctl, setsOf, rankSets, Function.comp_def]
  | application =>
    have hctls := affinityList_eq hown (hreads true (fun _ => hctl) _ hown)
    refine ⟨_, l.rankSets l.leastThreads l.rankCores tops, ?_, hplaced _ rfl⟩
    simp [hctl, hctls, setsOf, rankSets, Function.comp_def]
    rfl

/-- Ranks of one CPU each on a node. -/
def ranksOf (numSocket corePerSocket threadPerCore numAppMask : ℕ) (allowHtPinning : Bool)
    (ctl : Ctl) (allowedCpuset : List ℕ)
    (h : 0 < threadPerCore ∧ 0 < numSocket ∧ allowedCpuset.Nodup ∧
      allowedCpuset.length ≤ numSocket * corePerSocket * threadPerCore) : Launcher where
  numAppMask := numAppMask
  cpuPerRank := 1
  numLinuxCpu := numSocket * corePerSocket * threadPerCore
  threadPerCore := threadPerCore
  corePerSocket := corePerSocket
  numSocket := numSocket
  allowHtPinning := allowHtPinning
  ctl := ctl
  allowedCpuset := allowedCpuset
  threadPerCore_pos := h.1
  numSocket_pos := h.2.1
  nodup := h.2.2.1
  length_le := h.2.2.2
  numLinuxCpu_le := le_rfl

/-- Four ranks on two sockets of four cores. -/
theorem launchSets_spec_four :
    let l := ranksOf 2 4 2 4 true .process (List.range 16) (by decide)
    ∃ ctls ranks, l.launchSets 5 = .ok (ctls, ranks) ∧ l.Placement ctls ranks := by
  intro l
  have hfits : l.Fits := ⟨by decide, by decide, by decide +kernel, by decide +kernel⟩
  rcases launchSets_spec l 5 hfits (by decide) with ⟨what, hwhat⟩ | h
  · have hok : ∀ what, l.launchSets 5 ≠ .error (.runtime what) := by
      intro what h
      have hreturns : (l.launchSets 5).isOk = true := by decide +kernel
      rw [h] at hreturns
      cases hreturns
    exact absurd hwhat (hok what)
  · exact h.1

/-- Without threads for pinning the controller shares a CPU though others are free.  Where not all
CPUs are allowed, two ranks get one CPU or one core, a position is outside of the list, be it of a
rank or of the controller, or the threads of a core are counted without end. -/
theorem launchSets_unfit :
    (ranksOf 1 4 2 4 false .process (List.range 8) (by decide)).launchSets 5 =
        .ok ([{0}], [{0}, {1}, {2}, {3}]) ∧
      (ranksOf 2 4 1 2 true .pthread [0, 1, 2, 3] (by decide)).launchSets 3 =
        .ok ([], [{3}, {3}]) ∧
      (ranksOf 1 4 2 2 true .pthread [0, 4, 5, 6] (by decide)).launchSets 3 =
        .ok ([], [{0}, {4}]) ∧
      (ranksOf 2 4 1 2 true .pthread [0, 1] (by decide)).launchSets 3 = .error .index ∧
      (ranksOf 1 8 1 4 true .process [0, 1, 2, 3] (by decide)).launchSets 5 = .error .index ∧
      ∀ fuel, (ranksOf 1 4 2 1 true .pthread [0] (by decide)).launchSets fuel =
        .error .outOfFuel := by
  refine ⟨by decide +kernel, by decide +kernel, by decide +kernel, by decide +kernel,
    by decide +kernel, fun fuel => ?_⟩
  have hnone : ∀ fuel start, findThreads 0 1 fuel start = none := by
    intro fuel
    induction fuel with
    | zero => exact fun _ => rfl
    | succ fuel ih =>
      intro start
      rw [findThreads, if_pos (by omega)]
      exact ih _
  unfold launchSets affinityList positions
  rw [show (ranksOf 1 4 2 1 true .pthread [0] (by decide)).corePerNode = 0 from rfl]
  rw [show (ranksOf 1 4 2 1 true .pthread [0] (by decide)).appCpuPerNode = 1 from rfl, hnone]
  rfl

end Launcher

end Geopm.Launch
