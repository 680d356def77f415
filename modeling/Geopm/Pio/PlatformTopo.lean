import Geopm.Exception
import Geopm.Lib.Prog

/-!
# `PlatformTopoImp`

The domains of a node, and which of them are nested in which.

* `PlatformTopoImp` : the counts of packages, cores and threads, and the CPU sets of the NUMA nodes
  and of the GPUs;
* `PlatformTopoImp.Consistent` : containment is what it is said to be;
* `PlatformTopoImp.consistent_iff` : it is when every CPU is in a NUMA node and in the CPU sets of
  the GPUs and of their chips, and each of these has a CPU of its own.
-/

namespace Geopm.Pio

open List hiding set
open Nat

/-- `geopm_domain_e`. -/
inductive DomainType where
  | board | package | core | cpu | memory | packageIntegratedMemory | nic | packageIntegratedNic
  | gpu | packageIntegratedGpu | gpuChip
deriving DecidableEq, Repr

/-- The number of a domain type. -/
def DomainType.num : DomainType → ℤ
  | .board => 0
  | .package => 1
  | .core => 2
  | .cpu => 3
  | .memory => 4
  | .packageIntegratedMemory => 5
  | .nic => 6
  | .packageIntegratedNic => 7
  | .gpu => 8
  | .packageIntegratedGpu => 9
  | .gpuChip => 10

/-- The members of `PlatformTopoImp`.  A set is a list of its elements. -/
structure PlatformTopoImp where
  numPackage : ℕ
  corePerPackage : ℕ
  threadPerCore : ℕ
  numaMap : List (List ℤ)
  gpu : List (List ℤ)
  gpuChip : List (List ℤ)

namespace PlatformTopoImp

/-- All Linux logical CPUs. -/
def numCpu (numPackage corePerPackage threadPerCore : ℕ) : ℕ :=
  numPackage * corePerPackage * threadPerCore

/-- `parse_lscpu_numa`, from the CPU sets of the nodes that `lscpu` lists. -/
def parseLscpuNuma (numPackage corePerPackage threadPerCore : ℕ) (nodes : List (List ℤ)) :
    List (List ℤ) :=
  if nodes = [] then
    [(List.range (numCpu numPackage corePerPackage threadPerCore)).map fun cpu => (cpu : ℤ)]
  else nodes

/-- The constructor. -/
def make (numPackage corePerPackage threadPerCore : ℕ) (nodes gpu gpuChip : List (List ℤ)) :
    PlatformTopoImp where
  numPackage := numPackage
  corePerPackage := corePerPackage
  threadPerCore := threadPerCore
  numaMap := parseLscpuNuma numPackage corePerPackage threadPerCore nodes
  gpu := gpu
  gpuChip := gpuChip

variable (t : PlatformTopoImp)

def numDomain : DomainType → ℕ
  | .board => 1
  | .package => t.numPackage
  | .core => t.numPackage * t.corePerPackage
  | .cpu => t.numPackage * t.corePerPackage * t.threadPerCore
  | .memory => (t.numaMap.filter fun it => it ≠ []).length
  | .packageIntegratedMemory => (t.numaMap.filter fun it => it = []).length
  | .nic | .packageIntegratedNic | .packageIntegratedGpu => 0
  | .gpu => t.gpu.length
  | .gpuChip => t.gpuChip.length

def domainCpus (domainType : DomainType) (domainIdx : ℤ) : Except Exception (List ℤ) :=
  if domainIdx < 0 ∨ t.numDomain domainType ≤ domainIdx then
    .error ⟨"PlatformTopoImp::domain_cpus(): domain_idx out of range", [], .invalid⟩
  else
    match domainType with
    | .board => .ok t.numaMap.flatten
    | .gpu => .ok (t.gpu[domainIdx.toNat]?.getD [])
    | .gpuChip => .ok (t.gpuChip[domainIdx.toNat]?.getD [])
    | .package => .ok ((List.range t.threadPerCore).flatMap fun threadIdx : ℕ =>
        (List.range t.corePerPackage).map fun coreIdx : ℕ =>
          domainIdx * t.corePerPackage + coreIdx + threadIdx * t.corePerPackage * t.numPackage)
    | .core => .ok ((List.range t.threadPerCore).map fun threadIdx : ℕ =>
        domainIdx + threadIdx * t.corePerPackage * t.numPackage)
    | .cpu => .ok [domainIdx]
    | .memory => .ok (t.numaMap[domainIdx.toNat]?.getD [])
    | _ => .error ⟨"PlatformTopoImp::domain_cpus(domain_type=%) support not yet implemented",
        [domainType.num], .notImplemented⟩

/-- The loop of `domain_idx`: the first set that the CPU is in. -/
def findIdx (sets : List (List ℤ)) (cpuIdx : ℤ) : ℤ :=
  ((sets.findIdx? fun set => decide (cpuIdx ∈ set)).map fun i : ℕ => (i : ℤ)).getD (-1)

def domainIdx (domainType : DomainType) (cpuIdx : ℤ) : Except Exception ℤ :=
  if cpuIdx < 0 ∨ t.numDomain .cpu ≤ cpuIdx then
    .error ⟨"PlatformTopoImp::domain_idx(): cpu_idx out of range", [], .invalid⟩
  else
    match domainType with
    | .board => .ok 0
    | .package => .ok (cpuIdx % (t.numPackage * t.corePerPackage) / t.corePerPackage)
    | .core => .ok (cpuIdx % (t.numPackage * t.corePerPackage))
    | .cpu => .ok cpuIdx
    | .memory => .ok (findIdx t.numaMap cpuIdx)
    | .gpu => .ok (findIdx t.gpu cpuIdx)
    | .gpuChip => .ok (findIdx t.gpuChip cpuIdx)
    | _ => .error ⟨"PlatformTopoImp::domain_idx() no support yet for PACKAGE_INTEGRATED_MEMORY, " ++
        "NIC, or GPU", [], .notImplemented⟩

def isNestedDomain (innerDomain outerDomain : DomainType) : Bool :=
  if innerDomain = outerDomain then true
  else
    match outerDomain with
    | .board => true
    | .core => innerDomain = .cpu
    | .package => innerDomain ∈ [.cpu, .core, .packageIntegratedMemory, .packageIntegratedNic,
        .packageIntegratedGpu]
    | .memory => innerDomain = .cpu
    | .gpu => innerDomain = .cpu ∨ innerDomain = .gpuChip
    | .gpuChip => innerDomain = .cpu
    | _ => false

def domainNested (innerDomain outerDomain : DomainType) (outerIdx : ℤ) :
    Except Exception (List ℤ) :=
  if ¬ isNestedDomain innerDomain outerDomain then
    .error ⟨"PlatformTopoImp::domain_nested(): domain type % is not contained within domain type %",
      [innerDomain.num, outerDomain.num], .invalid⟩
  else do
    let cpus ← t.domainCpus outerDomain outerIdx
    cpus.mapM (t.domainIdx innerDomain)

/-! ### Consistency -/

/-- The index is among what `domain_nested` returns. -/
def IsNested (innerDomain outerDomain : DomainType) (outerIdx innerIdx : ℤ) : Prop :=
  ∃ idx, t.domainNested innerDomain outerDomain outerIdx = .ok idx ∧ innerIdx ∈ idx

/-- The index is one of the domain. -/
def IsIdx (domainType : DomainType) (idx : ℤ) : Prop := 0 ≤ idx ∧ idx < t.numDomain domainType

/-- What is nested are indices, and every index is nested somewhere; a CPU is in the domain whose
index it has. -/
structure Consistent : Prop where
  isIdx : ∀ inner outer, isNestedDomain inner outer = true → ∀ i, t.IsIdx outer i →
    ∀ j, t.IsNested inner outer i j → t.IsIdx inner j
  covered : ∀ inner outer, isNestedDomain inner outer = true → ∀ j, t.IsIdx inner j →
    ∃ i, t.IsIdx outer i ∧ t.IsNested inner outer i j
  domainIdx : ∀ domain c d, t.domainIdx domain c = .ok d →
    t.IsIdx domain d ∧ ∃ cpus, t.domainCpus domain d = .ok cpus ∧ c ∈ cpus

/-- Every CPU is in a set of existing CPUs, and every set has an existing CPU that is in no set
before it. -/
structure Covers (sets : List (List ℤ)) : Prop where
  covered : ∀ c, t.IsIdx .cpu c → ∃ set ∈ sets, c ∈ set ∧ ∀ c' ∈ set, t.IsIdx .cpu c'
  own : ∀ j < sets.length, ∃ c, t.IsIdx .cpu c ∧ findIdx sets c = j

/-- The NUMA nodes, the GPUs and their chips cover the CPUs, and the nodes hold nothing else. -/
structure Covered : Prop where
  numa : t.Covers t.numaMap
  existing : ∀ set ∈ t.numaMap, ∀ c ∈ set, t.IsIdx .cpu c
  gpu : t.Covers t.gpu
  gpuChip : t.Covers t.gpuChip

variable {t} {inner outer domain : DomainType} {i j c d : ℤ} {sets : List (List ℤ)}

/-! ### The first set -/

theorem findIdx_eq_natCast {n : ℕ} (h : findIdx sets c = n) :
    ∃ hn : n < sets.length, c ∈ sets[n] := by
  unfold findIdx at h
  cases hfind : sets.findIdx? fun set => decide (c ∈ set) with
  | none => rw [hfind] at h; exact absurd h (by simp)
  | some m =>
    rw [hfind, Option.map_some, Option.getD_some, Nat.cast_inj] at h
    subst h
    obtain ⟨hm, hmem, -⟩ := findIdx?_eq_some_iff_getElem.mp hfind
    exact ⟨hm, of_decide_eq_true hmem⟩

theorem findIdx_of_mem {set : List ℤ} (hset : set ∈ sets) (hc : c ∈ set) :
    ∃ n < sets.length, findIdx sets c = n := by
  unfold findIdx
  cases hfind : sets.findIdx? fun set => decide (c ∈ set) with
  | none =>
    have hnone := findIdx?_eq_none_iff.mp hfind set hset
    exact absurd hc (of_decide_eq_false hnone)
  | some m => exact ⟨m, (findIdx?_eq_some_iff_findIdx_eq.mp hfind).1, rfl⟩

/-! ### Which index a CPU has -/

theorem isIdx_of_domainIdx (h : t.domainIdx domain c = .ok d) : t.IsIdx .cpu c := by
  unfold domainIdx at h
  split_ifs at h with hc
  exact ⟨by omega, by omega⟩

/-- The domains whose indices are determined from a CPU. -/
def hasCpus : DomainType → Bool
  | .board | .package | .core | .cpu | .memory | .gpu | .gpuChip => true
  | _ => false

theorem hasCpus_of_domainIdx (h : t.domainIdx domain c = .ok d) : hasCpus domain = true := by
  unfold domainIdx at h
  split_ifs at h
  cases domain <;> first | rfl | cases h

/-- The index of a CPU, in a domain that has CPUs. -/
def cpuDomain (t : PlatformTopoImp) (domain : DomainType) (c : ℤ) : ℤ :=
  match domain with
  | .board => 0
  | .package => c % (t.numPackage * t.corePerPackage) / t.corePerPackage
  | .core => c % (t.numPackage * t.corePerPackage)
  | .cpu => c
  | .memory => findIdx t.numaMap c
  | .gpu => findIdx t.gpu c
  | .gpuChip => findIdx t.gpuChip c
  | _ => -1

theorem domainIdx_eq (hdomain : hasCpus domain = true) (hc : t.IsIdx .cpu c) :
    t.domainIdx domain c = .ok (t.cpuDomain domain c) := by
  unfold domainIdx
  rw [if_neg (not_or.mpr ⟨not_lt.mpr hc.1, not_le.mpr hc.2⟩)]
  cases domain <;> first | rfl | cases hdomain

theorem isNested_of {cpus : List ℤ} (hnested : isNestedDomain inner outer = true)
    (hcpus : t.domainCpus outer i = .ok cpus) (hinner : hasCpus inner = true)
    (hall : ∀ c ∈ cpus, t.IsIdx .cpu c) (hc : c ∈ cpus) :
    t.IsNested inner outer i (t.cpuDomain inner c) := by
  have hmap : cpus.mapM (t.domainIdx inner) = .ok (cpus.map (t.cpuDomain inner)) := by
    rw [Prog.mapM_eq_ok, forall₂_map_right_iff, forall₂_same]
    exact fun c hc => domainIdx_eq hinner (hall c hc)
  refine ⟨cpus.map (t.cpuDomain inner), ?_, mem_map_of_mem hc⟩
  unfold domainNested
  rw [if_neg (not_not.mpr hnested), hcpus]
  exact hmap

theorem IsNested.elim (h : t.IsNested inner outer i j) :
    ∃ cpus, t.domainCpus outer i = .ok cpus ∧ (∀ c ∈ cpus, t.IsIdx .cpu c) ∧
      ∃ c ∈ cpus, t.domainIdx inner c = .ok j := by
  obtain ⟨idx, hidx, hj⟩ := h
  unfold domainNested at hidx
  split_ifs at hidx with hnested
  cases hcpus : t.domainCpus outer i with
  | error e => rw [hcpus] at hidx; cases hidx
  | ok cpus =>
    rw [hcpus] at hidx
    have hmap : List.Forall₂ (fun c d => t.domainIdx inner c = .ok d) cpus idx :=
      Prog.mapM_eq_ok.mp hidx
    have hmem : List.Forall₂ (fun c d => c ∈ cpus ∧ t.domainIdx inner c = .ok d) cpus idx :=
      (forall₂_and_left _ _).mpr ⟨fun _ h => h, hmap⟩
    have hall : List.Forall₂ (fun c d => t.IsIdx .cpu c ∧ t.domainIdx inner c = .ok d) cpus idx :=
      hmap.imp fun _ _ h => ⟨isIdx_of_domainIdx h, h⟩
    have hfrom : List.Forall₂ (fun d c => (∃ c ∈ cpus, t.domainIdx inner c = .ok d) ∧
        t.domainIdx inner c = .ok d) idx cpus :=
      List.Forall₂.flip (hmem.imp fun c d h => ⟨⟨c, h⟩, h.2⟩)
    exact ⟨cpus, rfl, ((forall₂_and_left _ _).mp hall).1,
      ((forall₂_and_left _ _).mp hfrom).1 j hj⟩

/-! ### The packages and cores of a CPU -/

theorem numDomain_cpu (t : PlatformTopoImp) :
    t.numDomain .cpu = t.numPackage * t.corePerPackage * t.threadPerCore := rfl

/-- The CPU of a thread, a package and a core of the package. -/
def cpuOf (t : PlatformTopoImp) (thread package core : ℕ) : ℕ :=
  package * t.corePerPackage + core + thread * (t.numPackage * t.corePerPackage)

theorem core_lt {package core : ℕ} (hpackage : package < t.numPackage)
    (hcore : core < t.corePerPackage) :
    package * t.corePerPackage + core < t.numPackage * t.corePerPackage := by
  calc package * t.corePerPackage + core
      < package * t.corePerPackage + t.corePerPackage := Nat.add_lt_add_left hcore _
    _ = (package + 1) * t.corePerPackage := (succ_mul _ _).symm
    _ ≤ t.numPackage * t.corePerPackage := Nat.mul_le_mul_right _ hpackage

variable {thread package core : ℕ}

theorem cpuOf_lt (hthread : thread < t.threadPerCore)
    (hpackage : package < t.numPackage) (hcore : core < t.corePerPackage) :
    t.cpuOf thread package core < t.numDomain .cpu := by
  rw [numDomain_cpu, cpuOf]
  calc package * t.corePerPackage + core + thread * (t.numPackage * t.corePerPackage)
      < t.numPackage * t.corePerPackage + thread * (t.numPackage * t.corePerPackage) :=
        Nat.add_lt_add_right (core_lt hpackage hcore) _
    _ = (thread + 1) * (t.numPackage * t.corePerPackage) := by
        rw [succ_mul, Nat.add_comm]
    _ ≤ t.threadPerCore * (t.numPackage * t.corePerPackage) := Nat.mul_le_mul_right _ hthread
    _ = t.numPackage * t.corePerPackage * t.threadPerCore := Nat.mul_comm _ _

theorem cpuOf_mod (hpackage : package < t.numPackage)
    (hcore : core < t.corePerPackage) :
    t.cpuOf thread package core % (t.numPackage * t.corePerPackage) =
      package * t.corePerPackage + core := by
  rw [cpuOf, add_mul_mod_self_right, mod_eq_of_lt (core_lt hpackage hcore)]

theorem cpuOf_package (hpackage : package < t.numPackage)
    (hcore : core < t.corePerPackage) :
    t.cpuOf thread package core % (t.numPackage * t.corePerPackage) / t.corePerPackage =
      package := by
  rw [cpuOf_mod hpackage hcore, Nat.mul_comm, mul_add_div (by omega),
    div_eq_of_lt hcore, Nat.add_zero]

/-- Every CPU is that of a thread, a package and a core. -/
theorem exists_cpuOf {cpu : ℕ} (h : cpu < t.numDomain .cpu) :
    ∃ thread package core : ℕ, thread < t.threadPerCore ∧ package < t.numPackage ∧
      core < t.corePerPackage ∧ cpu = t.cpuOf thread package core := by
  rw [numDomain_cpu] at h
  set cores := t.numPackage * t.corePerPackage with hcores
  have hpos : 0 < cores := Nat.pos_of_ne_zero fun hzero => by
    rw [hzero, Nat.zero_mul] at h
    omega
  have hcore : 0 < t.corePerPackage := Nat.pos_of_mul_pos_left hpos
  refine ⟨cpu / cores, cpu % cores / t.corePerPackage, cpu % cores % t.corePerPackage,
    Nat.div_lt_of_lt_mul h, Nat.div_lt_of_lt_mul ?_, mod_lt _ hcore, ?_⟩
  · rw [Nat.mul_comm]
    exact mod_lt _ hpos
  · rw [cpuOf, Nat.mul_comm (cpu % cores / _), div_add_mod, ← hcores, Nat.mul_comm (cpu / cores),
      mod_add_div]

theorem isIdx_natCast {n : ℕ} : t.IsIdx domain n ↔ n < t.numDomain domain := by
  unfold IsIdx
  omega

theorem exists_natCast (h : t.IsIdx domain d) : ∃ n : ℕ, d = n ∧ n < t.numDomain domain := by
  obtain ⟨hnonneg, hlt⟩ := h
  exact ⟨d.toNat, (Int.toNat_of_nonneg hnonneg).symm, by omega⟩

/-! ### The CPUs of a domain -/

/-- The CPUs of a domain that has CPUs. -/
def cpusOf (t : PlatformTopoImp) (domain : DomainType) (d : ℤ) : List ℤ :=
  match domain with
  | .board => t.numaMap.flatten
  | .gpu => t.gpu[d.toNat]?.getD []
  | .gpuChip => t.gpuChip[d.toNat]?.getD []
  | .package => (List.range t.threadPerCore).flatMap fun threadIdx : ℕ =>
      (List.range t.corePerPackage).map fun coreIdx : ℕ =>
        d * t.corePerPackage + coreIdx + threadIdx * t.corePerPackage * t.numPackage
  | .core => (List.range t.threadPerCore).map fun threadIdx : ℕ =>
      d + threadIdx * t.corePerPackage * t.numPackage
  | .cpu => [d]
  | .memory => t.numaMap[d.toNat]?.getD []
  | _ => []

theorem domainCpus_eq (hdomain : hasCpus domain = true) (hd : t.IsIdx domain d) :
    t.domainCpus domain d = .ok (t.cpusOf domain d) := by
  unfold domainCpus
  rw [if_neg (not_or.mpr ⟨not_lt.mpr hd.1, not_le.mpr hd.2⟩)]
  cases domain <;> first | rfl | cases hdomain

theorem domainCpus_ok {cpus : List ℤ} (h : t.domainCpus domain d = .ok cpus) :
    t.IsIdx domain d ∧ hasCpus domain = true := by
  unfold domainCpus at h
  split_ifs at h with hd
  refine ⟨⟨by omega, by omega⟩, ?_⟩
  cases domain <;> first | rfl | cases h

theorem mem_cpusOf_package {n : ℕ} : c ∈ t.cpusOf .package n ↔
    ∃ thread core : ℕ, thread < t.threadPerCore ∧ core < t.corePerPackage ∧
      c = t.cpuOf thread n core := by
  unfold cpusOf cpuOf
  simp only [mem_flatMap, mem_map, mem_range]
  constructor
  · rintro ⟨thread, hthread, core, hcore, rfl⟩
    refine ⟨thread, core, hthread, hcore, ?_⟩
    push_cast
    ring
  · rintro ⟨thread, core, hthread, hcore, rfl⟩
    refine ⟨thread, hthread, core, hcore, ?_⟩
    push_cast
    ring

theorem mem_cpusOf_core {package core : ℕ} :
    c ∈ t.cpusOf .core (package * t.corePerPackage + core : ℕ) ↔
      ∃ thread : ℕ, thread < t.threadPerCore ∧ c = t.cpuOf thread package core := by
  unfold cpusOf cpuOf
  simp only [mem_map, mem_range]
  constructor
  · rintro ⟨thread, hthread, rfl⟩
    refine ⟨thread, hthread, ?_⟩
    push_cast
    ring
  · rintro ⟨thread, hthread, rfl⟩
    refine ⟨thread, hthread, ?_⟩
    push_cast
    ring

theorem cpuDomain_package (hpackage : package < t.numPackage)
    (hcore : core < t.corePerPackage) :
    t.cpuDomain .package (t.cpuOf thread package core) = package := by
  have h : ((t.cpuOf thread package core % (t.numPackage * t.corePerPackage) /
      t.corePerPackage : ℕ) : ℤ) = package := congrArg Nat.cast (cpuOf_package hpackage hcore)
  push_cast at h
  exact h

theorem cpuDomain_core (hpackage : package < t.numPackage)
    (hcore : core < t.corePerPackage) :
    t.cpuDomain .core (t.cpuOf thread package core) = (package * t.corePerPackage + core : ℕ) := by
  have h : ((t.cpuOf thread package core % (t.numPackage * t.corePerPackage) : ℕ) : ℤ) =
      (package * t.corePerPackage + core : ℕ) := congrArg Nat.cast (cpuOf_mod hpackage hcore)
  push_cast at h ⊢
  exact h

/-- A core number is made of a package and a core of the package. -/
theorem exists_core {n : ℕ} (h : n < t.numPackage * t.corePerPackage) :
    ∃ package core : ℕ, package < t.numPackage ∧ core < t.corePerPackage ∧
      n = package * t.corePerPackage + core := by
  have hcore : 0 < t.corePerPackage := Nat.pos_of_ne_zero fun hzero => by
    rw [hzero, Nat.mul_zero] at h
    omega
  refine ⟨n / t.corePerPackage, n % t.corePerPackage, Nat.div_lt_of_lt_mul ?_, mod_lt _ hcore,
    ?_⟩
  · rw [Nat.mul_comm]
    exact h
  · rw [Nat.mul_comm, div_add_mod]

/-! ### Covered platforms are consistent -/

namespace Covers

theorem findIdx_lt (h : t.Covers sets) (hc : t.IsIdx .cpu c) :
    ∃ n < sets.length, findIdx sets c = n ∧ c ∈ sets[n]?.getD [] := by
  obtain ⟨set, hset, hmem, -⟩ := h.covered c hc
  obtain ⟨n, hn, hfind⟩ := findIdx_of_mem hset hmem
  obtain ⟨hn', hmem'⟩ := findIdx_eq_natCast hfind
  refine ⟨n, hn, hfind, ?_⟩
  rw [getElem?_eq_getElem hn', Option.getD_some]
  exact hmem'

theorem exists_set (h : t.Covers sets) (hc : t.IsIdx .cpu c) :
    ∃ n < sets.length, c ∈ sets[n]?.getD [] ∧ ∀ c' ∈ sets[n]?.getD [], t.IsIdx .cpu c' := by
  obtain ⟨set, hset, hmem, hall⟩ := h.covered c hc
  obtain ⟨n, hn, rfl⟩ := getElem_of_mem hset
  refine ⟨n, hn, ?_⟩
  rw [getElem?_eq_getElem hn, Option.getD_some]
  exact ⟨hmem, hall⟩

end Covers

namespace Covered

section

variable (h : t.Covered)
include h

theorem ne_nil : ∀ set ∈ t.numaMap, set ≠ [] := by
  rintro set hset rfl
  obtain ⟨n, hn, hget⟩ := getElem_of_mem hset
  obtain ⟨c, -, hc⟩ := h.numa.own n hn
  obtain ⟨hn', hmem⟩ := findIdx_eq_natCast hc
  rw [hget] at hmem
  exact not_mem_nil hmem

theorem numDomain_memory : t.numDomain .memory = t.numaMap.length := by
  unfold numDomain
  rw [filter_eq_self.mpr fun set hset => decide_eq_true (h.ne_nil set hset)]

theorem numDomain_integratedMemory :
    t.numDomain .packageIntegratedMemory = 0 := by
  have hnone : t.numaMap.filter (fun it => it = []) = [] :=
    filter_eq_nil_iff.mpr fun set hset => by simpa using h.ne_nil set hset
  unfold numDomain
  dsimp only
  rw [hnone]
  rfl

theorem isIdx_cpuDomain (hdomain : hasCpus domain = true) (hc : t.IsIdx .cpu c) :
    t.IsIdx domain (t.cpuDomain domain c) ∧ c ∈ t.cpusOf domain (t.cpuDomain domain c) := by
  have hsets : ∀ {sets : List (List ℤ)}, t.Covers sets → t.numDomain domain = sets.length →
      (∀ d, t.cpusOf domain d = sets[d.toNat]?.getD []) → t.cpuDomain domain c = findIdx sets c →
      t.IsIdx domain (t.cpuDomain domain c) ∧ c ∈ t.cpusOf domain (t.cpuDomain domain c) := by
    intro sets hcovers hnum hcpus hidx
    obtain ⟨n, hn, hfind, hmem⟩ := hcovers.findIdx_lt hc
    rw [hidx, hfind, isIdx_natCast, hnum, hcpus, Int.toNat_natCast]
    exact ⟨hn, hmem⟩
  obtain ⟨n, rfl, hn⟩ := exists_natCast hc
  obtain ⟨thread, package, core, hthread, hpackage, hcore, rfl⟩ := exists_cpuOf hn
  cases domain with
  | board =>
    refine ⟨⟨le_refl 0, Int.one_pos⟩, ?_⟩
    obtain ⟨set, hset, hmem, -⟩ := h.numa.covered _ hc
    exact mem_flatten.mpr ⟨set, hset, hmem⟩
  | package =>
    rw [cpuDomain_package hpackage hcore, isIdx_natCast, mem_cpusOf_package]
    exact ⟨hpackage, thread, core, hthread, hcore, rfl⟩
  | core =>
    rw [cpuDomain_core hpackage hcore, isIdx_natCast, mem_cpusOf_core]
    exact ⟨core_lt hpackage hcore, thread, hthread, rfl⟩
  | cpu => exact ⟨hc, mem_singleton_self _⟩
  | memory => exact hsets h.numa h.numDomain_memory (fun _ => rfl) rfl
  | gpu => exact hsets h.gpu rfl (fun _ => rfl) rfl
  | gpuChip => exact hsets h.gpuChip rfl (fun _ => rfl) rfl
  | _ => cases hdomain

theorem exists_cpu (hne : t.numaMap ≠ []) (hdomain : hasCpus domain = true)
    (hj : t.IsIdx domain j) : ∃ c, t.IsIdx .cpu c ∧ t.cpuDomain domain c = j := by
  obtain ⟨c₀, hc₀, -⟩ := h.numa.own 0 (length_pos_of_ne_nil hne)
  obtain ⟨n₀, rfl, hn₀⟩ := exists_natCast hc₀
  obtain ⟨thread₀, package₀, core₀, hthread₀, hpackage₀, hcore₀, -⟩ := exists_cpuOf hn₀
  obtain ⟨n, rfl, hn⟩ := exists_natCast hj
  cases domain with
  | board =>
    have hzero : n = 0 := lt_one_iff.mp hn
    subst hzero
    exact ⟨n₀, hc₀, rfl⟩
  | package =>
    exact ⟨t.cpuOf thread₀ n core₀, isIdx_natCast.mpr (cpuOf_lt hthread₀ hn hcore₀),
      cpuDomain_package hn hcore₀⟩
  | core =>
    obtain ⟨package, core, hpackage, hcore, rfl⟩ := exists_core hn
    exact ⟨t.cpuOf thread₀ package core, isIdx_natCast.mpr (cpuOf_lt hthread₀ hpackage hcore),
      cpuDomain_core hpackage hcore⟩
  | cpu => exact ⟨n, hj, rfl⟩
  | memory => exact h.numa.own n (h.numDomain_memory ▸ hn)
  | gpu => exact h.gpu.own n hn
  | gpuChip => exact h.gpuChip.own n hn
  | _ => cases hdomain

theorem exists_idx (hdomain : hasCpus domain = true) (hc : t.IsIdx .cpu c) :
    ∃ i, t.IsIdx domain i ∧ c ∈ t.cpusOf domain i ∧ ∀ c' ∈ t.cpusOf domain i, t.IsIdx .cpu c' := by
  have hsets : ∀ {sets : List (List ℤ)}, t.Covers sets → t.numDomain domain = sets.length →
      (∀ d, t.cpusOf domain d = sets[d.toNat]?.getD []) →
      ∃ i, t.IsIdx domain i ∧ c ∈ t.cpusOf domain i ∧
        ∀ c' ∈ t.cpusOf domain i, t.IsIdx .cpu c' := by
    intro sets hcovers hnum hcpus
    obtain ⟨n, hn, hset⟩ := hcovers.exists_set hc
    refine ⟨n, ?_⟩
    rw [isIdx_natCast, hnum, hcpus, Int.toNat_natCast]
    exact ⟨hn, hset⟩
  obtain ⟨hidx, hmem⟩ := h.isIdx_cpuDomain hdomain hc
  obtain ⟨n, rfl, hn⟩ := exists_natCast hc
  obtain ⟨thread, package, core, hthread, hpackage, hcore, rfl⟩ := exists_cpuOf hn
  cases domain with
  | board =>
    refine ⟨_, hidx, hmem, fun c' hc' => ?_⟩
    obtain ⟨set, hset, hc'⟩ := mem_flatten.mp hc'
    exact h.existing set hset c' hc'
  | package =>
    refine ⟨_, hidx, hmem, fun c' hc' => ?_⟩
    rw [cpuDomain_package hpackage hcore, mem_cpusOf_package] at hc'
    obtain ⟨thread', core', hthread', hcore', rfl⟩ := hc'
    exact isIdx_natCast.mpr (cpuOf_lt hthread' hpackage hcore')
  | core =>
    refine ⟨_, hidx, hmem, fun c' hc' => ?_⟩
    rw [cpuDomain_core hpackage hcore, mem_cpusOf_core] at hc'
    obtain ⟨thread', hthread', rfl⟩ := hc'
    exact isIdx_natCast.mpr (cpuOf_lt hthread' hpackage hcore)
  | cpu => exact ⟨_, hidx, hmem, fun c' hc' => mem_singleton.mp hc' ▸ hc⟩
  | memory => exact hsets h.numa h.numDomain_memory fun _ => rfl
  | gpu => exact hsets h.gpu rfl fun _ => rfl
  | gpuChip => exact hsets h.gpuChip rfl fun _ => rfl
  | _ => cases hdomain

theorem numDomain_zero (hdomain : hasCpus domain = false) :
    t.numDomain domain = 0 := by
  cases domain with
  | packageIntegratedMemory => exact h.numDomain_integratedMemory
  | nic => rfl
  | packageIntegratedNic => rfl
  | packageIntegratedGpu => rfl
  | _ => cases hdomain

end

theorem hasCpus_outer (hnested : isNestedDomain inner outer = true) (hinner : hasCpus inner = true) :
    hasCpus outer = true := by
  cases outer <;> cases inner <;>
    first
    | rfl
    | exact absurd hinner (by decide)
    | exact absurd hnested (by decide)

theorem consistent (h : t.Covered) (hne : t.numaMap ≠ []) : t.Consistent where
  isIdx inner outer hnested i _ j hj := by
    obtain ⟨cpus, -, hall, c, hc, hidx⟩ := hj.elim
    have hinner := hasCpus_of_domainIdx hidx
    rw [domainIdx_eq hinner (hall c hc)] at hidx
    rw [← Except.ok.inj hidx]
    exact (h.isIdx_cpuDomain hinner (hall c hc)).1
  covered inner outer hnested j hj := by
    have hinner : hasCpus inner = true := by
      by_contra hnone
      have hzero := h.numDomain_zero (Bool.not_eq_true _ ▸ hnone)
      obtain ⟨n, -, hn⟩ := exists_natCast hj
      omega
    have houter := hasCpus_outer hnested hinner
    obtain ⟨c, hc, rfl⟩ := h.exists_cpu hne hinner hj
    obtain ⟨i, hi, hmem, hall⟩ := h.exists_idx houter hc
    exact ⟨i, hi, isNested_of hnested (domainCpus_eq houter hi) hinner hall hmem⟩
  domainIdx domain c d hidx := by
    have hdomain := hasCpus_of_domainIdx hidx
    have hc := isIdx_of_domainIdx hidx
    rw [domainIdx_eq hdomain hc] at hidx
    rw [← Except.ok.inj hidx]
    obtain ⟨hi, hmem⟩ := h.isIdx_cpuDomain hdomain hc
    exact ⟨hi, _, domainCpus_eq hdomain hi, hmem⟩

end Covered

/-! ### Consistent platforms are covered -/

namespace Consistent

section

variable (h : t.Consistent)
include h

theorem exists_cpu (hj : t.IsIdx domain j) :
    hasCpus domain = true ∧ ∃ c, t.IsIdx .cpu c ∧ t.cpuDomain domain c = j := by
  have hnested : isNestedDomain domain .board = true := by
    cases domain <;> rfl
  obtain ⟨i, -, hi⟩ := h.covered domain .board hnested j hj
  obtain ⟨cpus, -, hall, c, hc, hidx⟩ := hi.elim
  have hdomain := hasCpus_of_domainIdx hidx
  rw [domainIdx_eq hdomain (hall c hc)] at hidx
  exact ⟨hdomain, c, hall c hc, Except.ok.inj hidx⟩

theorem exists_idx (hnested : isNestedDomain .cpu domain = true)
    (hc : t.IsIdx .cpu c) :
    ∃ i, t.IsIdx domain i ∧ c ∈ t.cpusOf domain i ∧ ∀ c' ∈ t.cpusOf domain i, t.IsIdx .cpu c' := by
  obtain ⟨i, hi, hic⟩ := h.covered .cpu domain hnested c hc
  obtain ⟨cpus, hcpus, hall, c', hc', hidx⟩ := hic.elim
  have hdomain := (domainCpus_ok hcpus).2
  rw [domainCpus_eq hdomain hi] at hcpus
  rw [domainIdx_eq rfl (hall c' hc')] at hidx
  have hsame : c' = c := Except.ok.inj hidx
  refine ⟨i, hi, ?_⟩
  rw [Except.ok.inj hcpus]
  exact ⟨hsame ▸ hc', hall⟩

theorem covers (hnested : isNestedDomain .cpu domain = true)
    (hnum : t.numDomain domain = sets.length) (hcpus : ∀ d, t.cpusOf domain d = sets[d.toNat]?.getD [])
    (hidx : ∀ c, t.cpuDomain domain c = findIdx sets c) : t.Covers sets where
  covered c hc := by
    obtain ⟨i, hi, hmem, hall⟩ := h.exists_idx hnested hc
    obtain ⟨n, rfl, hn⟩ := exists_natCast hi
    rw [hnum] at hn
    rw [hcpus, Int.toNat_natCast, getElem?_eq_getElem hn, Option.getD_some] at hmem hall
    exact ⟨sets[n], getElem_mem hn, hmem, hall⟩
  own j hj := by
    have hj' : t.IsIdx domain j := isIdx_natCast.mpr (hnum ▸ hj)
    obtain ⟨-, c, hc, hcj⟩ := h.exists_cpu hj'
    exact ⟨c, hc, (hidx c).symm.trans hcj⟩

theorem numDomain_memory : t.numDomain .memory = t.numaMap.length := by
  have hnone : t.numDomain .packageIntegratedMemory = 0 := by
    by_contra hne
    have hzero : t.IsIdx .packageIntegratedMemory 0 := by
      refine ⟨le_refl 0, ?_⟩
      omega
    exact absurd (h.exists_cpu hzero).1 Bool.false_ne_true
  have hall : ∀ set ∈ t.numaMap, set ≠ [] := by
    intro set hset hnil
    have hempty := filter_eq_nil_iff.mp (length_eq_zero_iff.mp hnone) set hset
    exact hempty (decide_eq_true hnil)
  have hfilter := filter_eq_self.mpr fun set hset => decide_eq_true (hall set hset)
  exact congrArg List.length hfilter

theorem toCovered : t.Covered where
  numa := h.covers (rfl : isNestedDomain .cpu .memory = true) h.numDomain_memory (fun _ => rfl)
    fun _ => rfl
  existing set hset c hc := by
    have hboard : t.IsIdx .board 0 := ⟨le_refl 0, Int.one_pos⟩
    obtain ⟨i, hi, hnested⟩ := h.covered .board .board rfl 0 hboard
    obtain ⟨cpus, hcpus, hall, -⟩ := hnested.elim
    rw [domainCpus_eq rfl hi] at hcpus
    rw [← Except.ok.inj hcpus] at hall
    exact hall c (mem_flatten.mpr ⟨set, hset, hc⟩)
  gpu := h.covers (rfl : isNestedDomain .cpu .gpu = true) rfl (fun _ => rfl) fun _ => rfl
  gpuChip := h.covers (rfl : isNestedDomain .cpu .gpuChip = true) rfl (fun _ => rfl) fun _ => rfl

end

end Consistent

/-- **Containment is consistent** exactly if every CPU is in a NUMA node, in the CPU set of a GPU
and in that of a chip, and each of them has a CPU of its own. -/
theorem consistent_iff (numPackage corePerPackage threadPerCore : ℕ)
    (nodes gpu gpuChip : List (List ℤ)) :
    (make numPackage corePerPackage threadPerCore nodes gpu gpuChip).Consistent ↔
      (make numPackage corePerPackage threadPerCore nodes gpu gpuChip).Covered := by
  refine ⟨Consistent.toCovered, fun h => h.consistent ?_⟩
  unfold make parseLscpuNuma
  dsimp only
  split_ifs with hnodes
  · exact cons_ne_nil _ _
  · exact hnodes

/-- Two CPUs in the second of two NUMA nodes: one node is counted, and the CPUs are in the node
with the number one. -/
theorem not_consistent_emptyNode :
    ¬ ∀ numPackage corePerPackage threadPerCore nodes gpu gpuChip,
      (make numPackage corePerPackage threadPerCore nodes gpu gpuChip).Consistent := by
  intro h
  have hidx := (h 1 2 1 [[], [0, 1]] [[0, 1]] [[0, 1]]).domainIdx .memory 0 1 rfl
  exact absurd hidx.1.2 (by decide)

end PlatformTopoImp

end Geopm.Pio
