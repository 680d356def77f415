import Geopm.Pio.PlatformTopo

/-!
# The CPU of the sampling thread

`ApplicationSamplerImp` pins its thread to a CPU that it chooses each time the affinities of the
application have changed: on a core that the application leaves free, or at least on a free CPU.

* `samplerCpu` : the choice;
* `FreeCore` : no CPU of the core is active; `Placed` : the thread is on a free CPU if there is one;
* `samplerCpu_placed_iff` : the CPUs that are active and allowed for which it is.
-/

namespace Geopm.SamplerCpu

open Pio PlatformTopoImp
open List

variable (t : PlatformTopoImp) (isCpuActive : ℤ → Bool)

/-- `get_cpuset_fallback`, from what `get_cpuset` returns or throws. -/
def getCpusetFallback (cpuset : Except Exception (List ℤ)) : List ℤ :=
  match cpuset with
  | .ok allowedCpus => allowedCpus
  | .error _ => (List.range (t.numDomain .cpu)).map fun cpuIdx : ℕ => (cpuIdx : ℤ)

/-- The cores that the first loop marks as active. -/
def activeCores : Except Exception (List ℤ) :=
  (((List.range (t.numDomain .cpu)).map fun cpuIdx : ℕ => (cpuIdx : ℤ)).filter isCpuActive).mapM
    (t.domainIdx .core)

variable (allowedCpus : List ℤ)

/-- The loop over the cores, from the last one. -/
def inactiveCore (isCoreActive : List ℤ) : ℕ → Except Exception (Option ℤ)
  | 0 => .ok none
  | coreIdx + 1 =>
    if (coreIdx : ℤ) ∈ isCoreActive then inactiveCore isCoreActive coreIdx
    else do
      let inactiveCpu ← t.domainNested .cpu .core coreIdx
      match inactiveCpu.max? with
      | none => .error ⟨"Valid core index returned no nested CPUs", [], .invalid⟩
      | some cpuIdx =>
        if cpuIdx ∉ allowedCpus then inactiveCore isCoreActive coreIdx else pure (some cpuIdx)

/-- The loop over the CPUs, from the last one. -/
def inactiveCpu : ℕ → Option ℤ
  | 0 => none
  | cpuIdx + 1 =>
    if isCpuActive cpuIdx = false ∧ (cpuIdx : ℤ) ∈ allowedCpus then some cpuIdx
    else inactiveCpu cpuIdx

def samplerCpu : Except Exception ℤ := do
  let isCoreActive ← activeCores t isCpuActive
  match ← inactiveCore t allowedCpus isCoreActive (t.numDomain .core) with
  | some cpuIdx => pure cpuIdx
  | none => pure ((inactiveCpu isCpuActive allowedCpus (t.numDomain .cpu)).getD
      (t.numDomain .cpu - 1))

/-! ### A free CPU -/

/-- A CPU on a core without active CPUs. -/
def FreeCore (cpu : ℤ) : Prop :=
  t.IsIdx .cpu cpu ∧ ∀ c, t.IsIdx .cpu c → t.cpuDomain .core c = t.cpuDomain .core cpu →
    isCpuActive c = false

/-- An allowed CPU that is not active. -/
def FreeCpu (cpu : ℤ) : Prop := cpu ∈ allowedCpus ∧ t.IsIdx .cpu cpu ∧ isCpuActive cpu = false

/-- The thread is on an allowed CPU, on a free core if there is one with an allowed CPU, and else on
an inactive CPU if an allowed one is. -/
structure Placed (cpu : ℤ) : Prop where
  allowed : cpu ∈ allowedCpus
  freeCore : (∃ c ∈ allowedCpus, FreeCore t isCpuActive c) → FreeCore t isCpuActive cpu
  freeCpu : (¬ ∃ c ∈ allowedCpus, FreeCore t isCpuActive c) →
    (∃ c, FreeCpu t isCpuActive allowedCpus c) → isCpuActive cpu = false

/-- The last CPU of its core. -/
def LastOfCore (cpu : ℤ) : Prop :=
  ∀ c, t.IsIdx .cpu c → t.cpuDomain .core c = t.cpuDomain .core cpu → c ≤ cpu

/-- An allowed CPU is inactive, or the last CPU is allowed; and when a free core has an allowed CPU,
then that of one is the last CPU of its core or the last of the allowed CPUs that are inactive. -/
structure Spares : Prop where
  allowed : (∃ c, FreeCpu t isCpuActive allowedCpus c) ∨ (t.numDomain .cpu - 1 : ℤ) ∈ allowedCpus
  freeCore : (∃ c ∈ allowedCpus, FreeCore t isCpuActive c) →
    ∃ c ∈ allowedCpus, FreeCore t isCpuActive c ∧
      (LastOfCore t c ∨ ∀ c', FreeCpu t isCpuActive allowedCpus c' → c' ≤ c)

variable {t isCpuActive allowedCpus} {cpu : ℤ} {n : ℕ}

theorem mem_cpusOf_core_iff (hn : n < t.numDomain .core) :
    cpu ∈ t.cpusOf .core n ↔ t.IsIdx .cpu cpu ∧ t.cpuDomain .core cpu = n := by
  obtain ⟨package, core, hpackage, hcore, rfl⟩ := exists_core hn
  rw [mem_cpusOf_core]
  constructor
  · rintro ⟨thread, hthread, rfl⟩
    exact ⟨isIdx_natCast.mpr (cpuOf_lt hthread hpackage hcore), cpuDomain_core hpackage hcore⟩
  · rintro ⟨hcpu, hdomain⟩
    obtain ⟨c, rfl, hc⟩ := exists_natCast hcpu
    obtain ⟨thread, p, k, hthread, hp, hk, rfl⟩ := exists_cpuOf hc
    rw [cpuDomain_core hp hk, Nat.cast_inj] at hdomain
    exact ⟨thread, hthread, by rw [cpuOf, hdomain]; rfl⟩

theorem exists_coreOf (hcpu : t.IsIdx .cpu cpu) :
    ∃ core : ℕ, t.cpuDomain .core cpu = core ∧ core < t.numDomain .core := by
  obtain ⟨c, rfl, hc⟩ := exists_natCast hcpu
  obtain ⟨thread, package, core, hthread, hpackage, hcore, rfl⟩ := exists_cpuOf hc
  exact ⟨_, cpuDomain_core hpackage hcore, core_lt hpackage hcore⟩

theorem domainNested_core (hn : n < t.numDomain .core) :
    t.domainNested .cpu .core n = .ok (t.cpusOf .core n) := by
  unfold domainNested
  rw [if_neg (by decide), domainCpus_eq rfl (isIdx_natCast.mpr hn)]
  refine Prog.mapM_eq_ok.mpr (forall₂_same.mpr fun c hc => ?_)
  exact domainIdx_eq rfl ((mem_cpusOf_core_iff hn).mp hc).1

/-- The cores that are marked are those with an active CPU. -/
theorem exists_activeCores (t : PlatformTopoImp) (isCpuActive : ℤ → Bool) :
    ∃ cores, activeCores t isCpuActive = .ok cores ∧
      ∀ core, core ∈ cores ↔ ∃ c, t.IsIdx .cpu c ∧ t.cpuDomain .core c = core ∧ isCpuActive c := by
  have hidx : ∀ c, c ∈ (List.range (t.numDomain .cpu)).map (fun cpuIdx : ℕ => (cpuIdx : ℤ)) ↔
      t.IsIdx .cpu c := fun c => by
    rw [mem_map]
    constructor
    · rintro ⟨n, hn, rfl⟩
      exact isIdx_natCast.mpr (mem_range.mp hn)
    · intro hc
      obtain ⟨n, rfl, hn⟩ := exists_natCast hc
      exact ⟨n, mem_range.mpr hn, rfl⟩
  refine ⟨_, Prog.mapM_eq_ok.mpr (forall₂_map_right_iff.mpr (forall₂_same.mpr
    fun c hc => domainIdx_eq rfl ((hidx c).mp (mem_filter.mp hc).1))), fun core => ?_⟩
  rw [mem_map]
  refine exists_congr fun c => ?_
  rw [mem_filter, hidx, and_assoc, and_comm (a := isCpuActive c = true)]

/-- The loop over the cores finds the last CPU of a free core, if that of one is allowed. -/
theorem inactiveCore_spec (allowedCpus : List ℤ) (hthread : 0 < t.threadPerCore) {cores : List ℤ}
    (hcores : ∀ core, core ∈ cores ↔
      ∃ c, t.IsIdx .cpu c ∧ t.cpuDomain .core c = core ∧ isCpuActive c)
    (hn : n ≤ t.numDomain .core) :
    ∃ found, inactiveCore t allowedCpus cores n = .ok found ∧
      (∀ cpu ∈ found, cpu ∈ allowedCpus ∧ FreeCore t isCpuActive cpu ∧ LastOfCore t cpu) ∧
      (found = none → ∀ cpu ∈ allowedCpus, FreeCore t isCpuActive cpu → LastOfCore t cpu →
        ∀ core : ℕ, t.cpuDomain .core cpu = core → n ≤ core) := by
  induction n with
  | zero => exact ⟨none, rfl, nofun, fun _ _ _ _ _ _ _ => Nat.zero_le _⟩
  | succ n ih =>
    obtain ⟨found, hfound, hsome, hnone⟩ := ih (Nat.le_of_succ_le hn)
    -- the loop goes on when no allowed CPU of this core is free and the last of its core
    have hskip (h : ∀ cpu ∈ allowedCpus, FreeCore t isCpuActive cpu → LastOfCore t cpu →
        t.cpuDomain .core cpu ≠ n) : ∃ found', inactiveCore t allowedCpus cores n = .ok found' ∧
          (∀ cpu ∈ found', cpu ∈ allowedCpus ∧ FreeCore t isCpuActive cpu ∧ LastOfCore t cpu) ∧
          (found' = none → ∀ cpu ∈ allowedCpus, FreeCore t isCpuActive cpu → LastOfCore t cpu →
            ∀ core : ℕ, t.cpuDomain .core cpu = core → n + 1 ≤ core) :=
      ⟨found, hfound, hsome, fun hn cpu hcpu hfree hlast core hcore =>
        (hnone hn cpu hcpu hfree hlast core hcore).lt_of_ne fun heq =>
          h cpu hcpu hfree hlast (heq ▸ hcore)⟩
    unfold inactiveCore
    split_ifs with hactive
    · obtain ⟨c, hc, hcore, hbusy⟩ := (hcores n).mp hactive
      refine hskip fun cpu _ hfree _ heq => ?_
      rw [hfree.2 c hc (hcore.trans heq.symm)] at hbusy
      cases hbusy
    · obtain ⟨last, hlast⟩ : ∃ last, (t.cpusOf .core n).max? = some last := by
        rw [← Option.ne_none_iff_exists', Ne, max?_eq_none_iff, cpusOf, map_eq_nil_iff,
          range_eq_nil]
        exact hthread.ne'
      obtain ⟨hmem, hmax⟩ := max?_eq_some_iff.mp hlast
      obtain ⟨hidx, hcore⟩ := (mem_cpusOf_core_iff hn).mp hmem
      rw [domainNested_core hn]
      simp only [bind, Except.bind, hlast]
      split_ifs with hallowed
      · refine ⟨some last, rfl, ?_, nofun⟩
        rintro cpu ⟨⟩
        refine ⟨hallowed, ⟨hidx, fun c hc hsame => ?_⟩, fun c hc hsame =>
          hmax c ((mem_cpusOf_core_iff hn).mpr ⟨hc, hsame.trans hcore⟩)⟩
        rw [Bool.eq_false_iff]
        exact fun hbusy => hactive ((hcores n).mpr ⟨c, hc, hsame.trans hcore, hbusy⟩)
      · refine hskip fun cpu hcpu hfree hlastOf heq => ?_
        have hle := hlastOf last hidx (hcore.trans heq.symm)
        have hge := hmax cpu ((mem_cpusOf_core_iff hn).mpr ⟨hfree.1, heq⟩)
        exact hallowed (hle.antisymm hge ▸ hcpu)

theorem inactiveCpu_spec (isCpuActive : ℤ → Bool) (allowedCpus : List ℤ) (n : ℕ) (hn : n ≤ t.numDomain .cpu) :
    (∀ cpu ∈ inactiveCpu isCpuActive allowedCpus n, FreeCpu t isCpuActive allowedCpus cpu ∧
        ∀ c, FreeCpu t isCpuActive allowedCpus c → c < n → c ≤ cpu) ∧
      (inactiveCpu isCpuActive allowedCpus n = none →
        ∀ c, FreeCpu t isCpuActive allowedCpus c → (n : ℤ) ≤ c) := by
  induction n with
  | zero => exact ⟨nofun, fun _ c hc => hc.2.1.1⟩
  | succ n ih =>
    obtain ⟨hsome, hnone⟩ := ih (Nat.le_of_succ_le hn)
    unfold inactiveCpu
    split_ifs with hfree
    · refine ⟨?_, nofun⟩
      rintro cpu ⟨⟩
      exact ⟨⟨hfree.2, isIdx_natCast.mpr hn, hfree.1⟩, fun c _ hlt => by omega⟩
    · have hne : ∀ c, FreeCpu t isCpuActive allowedCpus c → c ≠ n := by
        rintro c hc rfl
        exact hfree ⟨hc.2.2, hc.1⟩
      refine ⟨fun cpu hcpu => ⟨(hsome cpu hcpu).1, fun c hc hlt => ?_⟩, fun hn c hc => ?_⟩
      · exact (hsome cpu hcpu).2 c hc (by have := hne c hc; omega)
      · have := hnone hn c hc
        have := hne c hc
        omega

/-- **Where the thread is placed** : on a free CPU exactly when one is found by the two searches. -/
theorem samplerCpu_placed_iff (t : PlatformTopoImp) (hthread : 0 < t.threadPerCore)
    (isCpuActive : ℤ → Bool) (allowedCpus : List ℤ) :
    ∃ cpu, samplerCpu t isCpuActive allowedCpus = .ok cpu ∧
      (Placed t isCpuActive allowedCpus cpu ↔ Spares t isCpuActive allowedCpus) := by
  obtain ⟨cores, hactive, hcores⟩ := exists_activeCores t isCpuActive
  obtain ⟨found, hfound, hsome, hnone⟩ :=
    inactiveCore_spec allowedCpus hthread hcores le_rfl
  obtain ⟨hcpuSome, hcpuNone⟩ := inactiveCpu_spec isCpuActive allowedCpus
    (t.numDomain .cpu) le_rfl
  unfold samplerCpu
  rw [hactive]
  simp only [bind, Except.bind, hfound]
  cases found with
  | some cpu =>
    obtain ⟨hallowed, hfree, hlast⟩ := hsome cpu rfl
    have hcpu := hfree.2 cpu hfree.1 rfl
    exact ⟨cpu, rfl, iff_of_true ⟨hallowed, fun _ => hfree, fun _ _ => hcpu⟩
      ⟨.inl ⟨cpu, hallowed, hfree.1, hcpu⟩, fun _ => ⟨cpu, hallowed, hfree, .inl hlast⟩⟩⟩
  | none =>
    have hnotLast : ∀ c ∈ allowedCpus, FreeCore t isCpuActive c → ¬ LastOfCore t c :=
      fun c hc hfree hlast => by
        obtain ⟨core, hcore, hlt⟩ := exists_coreOf hfree.1
        exact hlt.not_ge (hnone rfl c hc hfree hlast core hcore)
    have hcpu : ∀ c ∈ allowedCpus, FreeCore t isCpuActive c → FreeCpu t isCpuActive allowedCpus c :=
      fun c hc hfree => ⟨hc, hfree.1, hfree.2 c hfree.1 rfl⟩
    refine ⟨_, rfl, ?_⟩
    cases hfoundCpu : inactiveCpu isCpuActive allowedCpus (t.numDomain .cpu) with
    | some cpu =>
      obtain ⟨hfreeCpu, hlast⟩ := hcpuSome cpu hfoundCpu
      have hmax : ∀ c, FreeCpu t isCpuActive allowedCpus c → c ≤ cpu :=
        fun c hc => hlast c hc hc.2.1.2
      refine ⟨fun hplaced => ⟨.inl ⟨cpu, hfreeCpu⟩, fun hfree =>
        ⟨cpu, hplaced.allowed, hplaced.freeCore hfree, .inr hmax⟩⟩, fun hspares =>
        ⟨hfreeCpu.1, fun hfree => ?_, fun _ _ => hfreeCpu.2.2⟩⟩
      obtain ⟨c, hc, hfree, hlastOf | hlastCpu⟩ := hspares.freeCore hfree
      · exact absurd hlastOf (hnotLast c hc hfree)
      · obtain rfl := (hmax c (hcpu c hc hfree)).antisymm (hlastCpu cpu hfreeCpu)
        exact hfree
    | none =>
      have hnoCpu : ¬ ∃ c, FreeCpu t isCpuActive allowedCpus c := fun ⟨c, hc⟩ =>
        (hcpuNone hfoundCpu c hc).not_gt hc.2.1.2
      have hnoCore : ¬ ∃ c ∈ allowedCpus, FreeCore t isCpuActive c := fun ⟨c, hc, hfree⟩ =>
        hnoCpu ⟨c, hcpu c hc hfree⟩
      exact ⟨fun hplaced => ⟨.inr hplaced.allowed, fun hfree => absurd hfree hnoCore⟩,
        fun hspares => ⟨hspares.allowed.resolve_left hnoCpu, fun hfree => absurd hfree hnoCore,
          fun _ hfree => absurd hfree hnoCpu⟩⟩

theorem samplerCpu_placed_oneCore : 0 < 2 ∧
    ∃ cpu, samplerCpu (make 1 1 2 [] [] []) (fun _ => false) [0, 1] = .ok cpu ∧
      (Placed (make 1 1 2 [] [] []) (fun _ => false) [0, 1] cpu ↔
        Spares (make 1 1 2 [] [] []) (fun _ => false) [0, 1]) :=
  ⟨by decide, samplerCpu_placed_iff (make 1 1 2 [] [] []) (by decide) (fun _ => false) [0, 1]⟩

/-- Two cores with two threads: CPU 1 is active, and CPU 0 is allowed, which is on a free core with the
CPU 2, that is not allowed, and so is CPU 3, the last of the inactive ones. -/
theorem not_samplerCpu_placed : ¬ ∀ (t : PlatformTopoImp), 0 < t.threadPerCore →
    ∀ (isCpuActive : ℤ → Bool) (allowedCpus : List ℤ), allowedCpus ≠ [] →
      ∃ cpu, samplerCpu t isCpuActive allowedCpus = .ok cpu ∧
        Placed t isCpuActive allowedCpus cpu := by
  intro h
  obtain ⟨cpu, hcpu, hplaced⟩ := h (make 1 2 2 [] [] []) (by decide) (fun c => c = 1) [0, 3]
    (cons_ne_nil _ _)
  have hbusy : samplerCpu (make 1 2 2 [] [] []) (fun c => c = 1) [0, 3] = .ok 3 := by decide
  obtain rfl := Except.ok.inj (hcpu.symm.trans hbusy)
  have hfree : FreeCore (make 1 2 2 [] [] []) (fun c => c = 1) 0 :=
    ⟨⟨by decide, by decide⟩, fun c _ hcore => decide_eq_false fun hc =>
      absurd (hc ▸ hcore) (by decide)⟩
  have hactive := (hplaced.freeCore ⟨0, by decide, hfree⟩).2 1 ⟨by decide, by decide⟩ (by decide)
  exact absurd hactive (by decide)

end Geopm.SamplerCpu
