import Geopm.Lib.Partition
import Geopm.Pio.PlatformTopo

/-!
# CPUs, cores and packages

What `domain_cpus`, `domain_idx` and `domain_nested` say about the CPU, core and package domains.
The threads of a core are numbered with a stride of all the cores of the node.

* `PlatformTopoImp.cpuSet`, `nestedSet` : the sets that are returned, as sets;
* `PlatformTopoImp.mem_cpuSet_iff` : `domain_idx` is the inverse of `domain_cpus`;
* `PlatformTopoImp.isPartition_cpuSet` : the domains partition the CPUs;
* `PlatformTopoImp.cpus_cores_packages` : the sizes, and that containment composes.
-/

namespace Geopm.Pio

namespace PlatformTopoImp

open Partition

variable (t : PlatformTopoImp)

/-- The indices of a domain. -/
def indices (domain : DomainType) : Set ℤ := {i | t.IsIdx domain i}

/-- What `domain_cpus` returns; nothing, when it throws. -/
def cpuSet (domain : DomainType) (i : ℤ) : Set ℤ :=
  {c | ∃ cpus, t.domainCpus domain i = .ok cpus ∧ c ∈ cpus}

/-- What `domain_nested` returns; nothing, when it throws. -/
def nestedSet (inner outer : DomainType) (i : ℤ) : Set ℤ := {j | t.IsNested inner outer i j}

/-- The domains whose indices are computed from the number of a CPU. -/
def isNumbered : DomainType → Bool
  | .cpu | .core | .package => true
  | _ => false

variable {t} {inner outer domain : DomainType} {i j c : ℤ}

theorem hasCpus_of_isNumbered (h : isNumbered domain = true) : hasCpus domain = true := by
  cases domain <;> first | rfl | cases h

/-- The thread, the package and the core of a CPU. -/
theorem exists_cpuOf_int (h : t.IsIdx .cpu c) :
    ∃ thread package core : ℕ, thread < t.threadPerCore ∧ package < t.numPackage ∧
      core < t.corePerPackage ∧ c = t.cpuOf thread package core := by
  obtain ⟨n, rfl, hn⟩ := exists_natCast h
  obtain ⟨thread, package, core, hthread, hpackage, hcore, rfl⟩ := exists_cpuOf hn
  exact ⟨thread, package, core, hthread, hpackage, hcore, rfl⟩

section

variable (hdomain : isNumbered domain = true)
include hdomain

theorem mem_cpusOf_cpuDomain (hc : t.IsIdx .cpu c) :
    t.IsIdx domain (t.cpuDomain domain c) ∧ c ∈ t.cpusOf domain (t.cpuDomain domain c) := by
  obtain ⟨thread, package, core, hthread, hpackage, hcore, rfl⟩ := exists_cpuOf_int hc
  cases domain with
  | cpu => exact ⟨hc, List.mem_singleton_self _⟩
  | core =>
    rw [cpuDomain_core hpackage hcore, mem_cpusOf_core]
    exact ⟨isIdx_natCast.mpr (core_lt hpackage hcore), thread, hthread, rfl⟩
  | package =>
    rw [cpuDomain_package hpackage hcore, mem_cpusOf_package]
    exact ⟨isIdx_natCast.mpr hpackage, thread, core, hthread, hcore, rfl⟩
  | _ => cases hdomain

theorem cpuDomain_of_mem (hi : t.IsIdx domain i)
    (hc : c ∈ t.cpusOf domain i) : t.IsIdx .cpu c ∧ t.cpuDomain domain c = i := by
  obtain ⟨n, rfl, hn⟩ := exists_natCast hi
  cases domain with
  | cpu =>
    obtain rfl := List.mem_singleton.mp hc
    exact ⟨hi, rfl⟩
  | core =>
    obtain ⟨package, core, hpackage, hcore, rfl⟩ := exists_core hn
    obtain ⟨thread, hthread, rfl⟩ := mem_cpusOf_core.mp hc
    exact ⟨isIdx_natCast.mpr (cpuOf_lt hthread hpackage hcore), cpuDomain_core hpackage hcore⟩
  | package =>
    obtain ⟨thread, core, hthread, hcore, rfl⟩ := mem_cpusOf_package.mp hc
    exact ⟨isIdx_natCast.mpr (cpuOf_lt hthread hn hcore), cpuDomain_package hn hcore⟩
  | _ => cases hdomain

/-- **`domain_idx` is the inverse of `domain_cpus`.** -/
theorem mem_cpuSet_iff :
    c ∈ t.cpuSet domain i ↔ t.domainIdx domain c = .ok i := by
  have hhas := hasCpus_of_isNumbered hdomain
  constructor
  · rintro ⟨cpus, hcpus, hc⟩
    have hi := (domainCpus_ok hcpus).1
    rw [domainCpus_eq hhas hi] at hcpus
    obtain ⟨hcpu, hidx⟩ := cpuDomain_of_mem hdomain hi (Except.ok.inj hcpus ▸ hc)
    rw [domainIdx_eq hhas hcpu, hidx]
  · intro hidx
    have hcpu := isIdx_of_domainIdx hidx
    rw [domainIdx_eq hhas hcpu] at hidx
    obtain ⟨hi, hmem⟩ := mem_cpusOf_cpuDomain hdomain hcpu
    rw [Except.ok.inj hidx] at hi hmem
    exact ⟨_, domainCpus_eq hhas hi, hmem⟩

theorem mem_cpuSet_iff_cpuDomain :
    c ∈ t.cpuSet domain i ↔ t.IsIdx .cpu c ∧ t.cpuDomain domain c = i := by
  rw [mem_cpuSet_iff hdomain]
  constructor
  · intro hidx
    have hcpu := isIdx_of_domainIdx hidx
    rw [domainIdx_eq (hasCpus_of_isNumbered hdomain) hcpu] at hidx
    exact ⟨hcpu, Except.ok.inj hidx⟩
  · rintro ⟨hcpu, rfl⟩
    exact domainIdx_eq (hasCpus_of_isNumbered hdomain) hcpu

theorem isIdx_cpu_of_mem (h : c ∈ t.cpuSet domain i) :
    t.IsIdx .cpu c := ((mem_cpuSet_iff_cpuDomain hdomain).mp h).1

end

theorem mem_nestedSet_iff (hnested : isNestedDomain inner outer = true)
    (hinner : isNumbered inner = true) (houter : isNumbered outer = true) :
    j ∈ t.nestedSet inner outer i ↔ ∃ c ∈ t.cpuSet outer i, t.cpuDomain inner c = j := by
  constructor
  · intro h
    obtain ⟨cpus, hcpus, hall, c, hc, hidx⟩ := IsNested.elim h
    rw [domainIdx_eq (hasCpus_of_isNumbered hinner) (hall c hc)] at hidx
    exact ⟨c, ⟨cpus, hcpus, hc⟩, Except.ok.inj hidx⟩
  · rintro ⟨c, ⟨cpus, hcpus, hc⟩, rfl⟩
    exact isNested_of hnested hcpus (hasCpus_of_isNumbered hinner)
      (fun c' hc' => isIdx_cpu_of_mem houter ⟨cpus, hcpus, hc'⟩) hc

theorem nestedSet_cpu (hnested : isNestedDomain .cpu outer = true)
    (houter : isNumbered outer = true) : t.nestedSet .cpu outer i = t.cpuSet outer i := by
  ext c
  rw [mem_nestedSet_iff hnested rfl houter]
  constructor
  · rintro ⟨c', hc', rfl⟩
    exact hc'
  · intro hc
    exact ⟨c, hc, rfl⟩

/-! ### Partitions -/

/-- A node with a package, a core and a thread. -/
structure Positive (t : PlatformTopoImp) : Prop where
  numPackage : 0 < t.numPackage
  corePerPackage : 0 < t.corePerPackage
  threadPerCore : 0 < t.threadPerCore

/-- **The CPUs are partitioned** by each of the domains. -/
theorem isPartition_cpuSet (h : t.Positive) (hdomain : isNumbered domain = true) :
    IsPartition (t.indices domain) (t.cpuSet domain) (t.indices .cpu) := by
  refine .of_fibers (t.cpuDomain domain) (fun i _ c => mem_cpuSet_iff_cpuDomain hdomain)
    (fun c hc => (mem_cpusOf_cpuDomain hdomain hc).1) fun i hi => ?_
  obtain ⟨n, rfl, hn⟩ := exists_natCast hi
  -- the first thread of a core that the index has
  cases domain with
  | cpu => exact ⟨n, hi, rfl⟩
  | core =>
    obtain ⟨package, core, hpackage, hcore, rfl⟩ := exists_core hn
    exact ⟨_, isIdx_natCast.mpr (cpuOf_lt h.threadPerCore hpackage hcore),
      cpuDomain_core hpackage hcore⟩
  | package =>
    exact ⟨_, isIdx_natCast.mpr (cpuOf_lt h.threadPerCore hn h.corePerPackage),
      cpuDomain_package hn h.corePerPackage⟩
  | _ => cases hdomain

theorem ncard_eq_of_injective {s : Set ℤ} {n : ℕ} (f : ℕ → ℕ)
    (hinj : ∀ a b, f a = f b → a = b) (hs : ∀ c, c ∈ s ↔ ∃ a < n, c = f a) : s.ncard = n := by
  have himage : s = (fun a => (f a : ℤ)) '' (Finset.range n : Set ℕ) := by
    ext c
    rw [hs]
    simp [eq_comm]
  have hcast : Function.Injective fun a => (f a : ℤ) := by
    intro a b hab
    exact hinj a b (Int.natCast_inj.mp hab)
  rw [himage, Set.ncard_image_of_injective _ hcast, Set.ncard_coe_finset, Finset.card_range]

theorem ncard_core (hi : i ∈ t.indices .core) : (t.cpuSet .core i).ncard = t.threadPerCore := by
  obtain ⟨n, rfl, hn⟩ := exists_natCast hi
  have hpos : 0 < t.numPackage * t.corePerPackage := Nat.lt_of_le_of_lt (Nat.zero_le n) hn
  obtain ⟨package, core, hpackage, hcore, rfl⟩ := exists_core hn
  refine ncard_eq_of_injective (fun thread => t.cpuOf thread package core) ?_ fun c => ?_
  · intro a b hab
    unfold cpuOf at hab
    exact Nat.eq_of_mul_eq_mul_right hpos (by omega)
  · show (∃ cpus, t.domainCpus .core _ = .ok cpus ∧ c ∈ cpus) ↔ _
    rw [domainCpus_eq rfl hi]
    simp only [Except.ok.injEq, exists_eq_left']
    exact mem_cpusOf_core

theorem mem_cpuSet_package_iff {core : ℤ} (hc : c ∈ t.cpuSet .core core) :
    c ∈ t.cpuSet .package i ↔ core / t.corePerPackage = i := by
  obtain ⟨hcpu, hidx⟩ := (mem_cpuSet_iff_cpuDomain rfl).mp hc
  rw [mem_cpuSet_iff_cpuDomain rfl, ← hidx]
  exact and_iff_right hcpu

theorem nestedSet_core (h : t.Positive) :
    t.nestedSet .core .package i = {core ∈ t.indices .core | core / t.corePerPackage = i} := by
  ext core
  rw [mem_nestedSet_iff rfl rfl rfl]
  constructor
  · rintro ⟨c, hc, rfl⟩
    have hcpu := isIdx_cpu_of_mem rfl hc
    have hidx : t.IsIdx .core (t.cpuDomain .core c) ∧ c ∈ t.cpusOf .core (t.cpuDomain .core c) :=
      mem_cpusOf_cpuDomain rfl hcpu
    have hmem : c ∈ t.cpuSet .core (t.cpuDomain .core c) := ⟨_, domainCpus_eq rfl hidx.1, hidx.2⟩
    exact ⟨hidx.1, (mem_cpuSet_package_iff hmem).mp hc⟩
  · rintro ⟨hcore, hup⟩
    have hpartition : IsPartition (t.indices .core) (t.cpuSet .core) (t.indices .cpu) :=
      isPartition_cpuSet h rfl
    obtain ⟨c, hc⟩ := hpartition.nonempty core hcore
    exact ⟨c, (mem_cpuSet_package_iff hc).mpr hup, ((mem_cpuSet_iff_cpuDomain rfl).mp hc).2⟩

theorem ncard_package (h : t.Positive) (hi : i ∈ t.indices .package) :
    (t.nestedSet .core .package i).ncard = t.corePerPackage := by
  obtain ⟨n, rfl, hn⟩ := exists_natCast hi
  refine ncard_eq_of_injective (fun core => n * t.corePerPackage + core)
    (fun a b hab => Nat.add_left_cancel hab) fun c => ?_
  rw [nestedSet_core h]
  constructor
  · rintro ⟨hcore, hup⟩
    obtain ⟨k, rfl, hk⟩ := exists_natCast hcore
    obtain ⟨package, core, hpackage, hlt, rfl⟩ := exists_core hk
    have hpackage' : (package * t.corePerPackage + core) / t.corePerPackage = n := by
      exact_mod_cast hup
    rw [Nat.mul_comm, Nat.mul_add_div h.corePerPackage, Nat.div_eq_of_lt hlt, Nat.add_zero]
      at hpackage'
    exact ⟨core, hlt, by rw [hpackage']⟩
  · rintro ⟨core, hlt, rfl⟩
    refine ⟨isIdx_natCast.mpr (core_lt hn hlt), ?_⟩
    have hdiv : (n * t.corePerPackage + core) / t.corePerPackage = n := by
      rw [Nat.mul_comm, Nat.mul_add_div h.corePerPackage, Nat.div_eq_of_lt hlt, Nat.add_zero]
    exact_mod_cast hdiv

theorem isPartition_nestedSet (h : t.Positive) (i : ℤ) :
    IsPartition (t.nestedSet .core .package i) (t.nestedSet .cpu .core)
      (t.nestedSet .cpu .package i) := by
  have hcpus : t.nestedSet .cpu .core = t.cpuSet .core := funext fun k => nestedSet_cpu rfl rfl
  rw [nestedSet_core h, nestedSet_cpu rfl rfl, hcpus]
  refine (isPartition_cpuSet h rfl).of_coarser (fun core _ c hc => mem_cpuSet_package_iff hc) ?_
  exact fun c hc => isIdx_cpu_of_mem rfl hc

/-- **The arithmetic of CPUs, cores and packages**: each domain partitions the CPUs, `domain_idx`
is the inverse, cores and packages have their sizes, and containment composes. -/
theorem cpus_cores_packages (h : t.Positive) :
    (∀ domain, isNumbered domain = true →
      IsPartition (t.indices domain) (t.cpuSet domain) (t.indices .cpu) ∧
        ∀ c i, c ∈ t.cpuSet domain i ↔ t.domainIdx domain c = .ok i) ∧
    (∀ i ∈ t.indices .core, (t.cpuSet .core i).ncard = t.threadPerCore) ∧
    (∀ i ∈ t.indices .package, (t.nestedSet .core .package i).ncard = t.corePerPackage) ∧
    ∀ i ∈ t.indices .package, IsPartition (t.nestedSet .core .package i) (t.nestedSet .cpu .core)
      (t.nestedSet .cpu .package i) := by
  refine ⟨fun domain hdomain => ⟨isPartition_cpuSet h hdomain, fun c i => mem_cpuSet_iff hdomain⟩,
    fun i hi => ncard_core hi, fun i hi => ncard_package h hi, fun i _ => isPartition_nestedSet h i⟩

/-- The node of two packages with two cores, and two threads on each core. -/
theorem cpus_cores_packages_two :
    (∀ i ∈ (make 2 2 2 [] [] []).indices .core,
      ((make 2 2 2 [] [] []).cpuSet .core i).ncard = 2) ∧
    (make 2 2 2 [] [] []).nestedSet .cpu .package 1 =
      (make 2 2 2 [] [] []).nestedSet .cpu .core 2 ∪ (make 2 2 2 [] [] []).nestedSet .cpu .core 3 := by
  have hpos : (make 2 2 2 [] [] []).Positive := ⟨by decide, by decide, by decide⟩
  obtain ⟨-, hcore, -, hnested⟩ := cpus_cores_packages hpos
  refine ⟨hcore, ?_⟩
  have hcores : (make 2 2 2 [] [] []).nestedSet .core .package 1 = {2, 3} := by
    rw [nestedSet_core hpos]
    ext core
    show (0 ≤ core ∧ core < 4) ∧ core / 2 = 1 ↔ core = 2 ∨ core = 3
    omega
  have hunion := (hnested 1 ⟨by decide, by decide⟩).union
  rw [hcores] at hunion
  simpa using hunion.symm

end PlatformTopoImp

end Geopm.Pio
