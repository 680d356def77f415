import Geopm.Agent.FrequencyBalancerAgent
import Geopm.Lib.Fallible
import Geopm.Lib.Lts

/-!
# The classes of service that the cores get

* `IsPackages`, `isPackages`, `packageCoreIndices_eq` : which cores the index lists of the packages
  hold;
* `Sized` : the sizes of the vectors, which every call keeps;
* `exists_rounded`, `Balanced` : what the loops over the controls and over the packages leave;
* `exists_adjustPlatform` : what a call does, and which cores get a class;
* `Right`, `Suitable` : what a call should do, and when it does;
* `along_right` : runs of suitable calls are right.
-/

namespace Geopm.FrequencyBalancerAgent

open CheckedVector
open Pio (Value PlatformTopoImp DomainType)
open List hiding set

/-! ### The index lists -/

/-- The lists hold the cores of each package, once each. -/
structure IsPackages (t : PlatformTopoImp) (indices : List (List ℕ)) : Prop where
  length : indices.length = t.numPackage
  cores : ∀ p < t.numPackage, ∃ l, indices[p]? = some l ∧ l.Nodup ∧
    ∀ i, i ∈ l ↔ i / t.corePerPackage = p

section Topology

variable {t : PlatformTopoImp}

theorem IsPackages.mem_iff {indices : List (List ℕ)} (h : IsPackages t indices) {p : ℕ} {l : List ℕ}
    (hl : indices[p]? = some l) {i : ℕ} : i ∈ l ↔ i / t.corePerPackage = p := by
  have hp : p < t.numPackage := h.length ▸ (List.getElem?_eq_some_iff.mp hl).1
  obtain ⟨l', hl', -, hmem⟩ := h.cores p hp
  obtain rfl := Option.some.inj (hl.symm.trans hl')
  exact hmem i

theorem mem_iterate {set : List ℤ} (h : ∀ z ∈ set, 0 ≤ z) (i : ℕ) :
    i ∈ iterate set ↔ (i : ℤ) ∈ set := by
  rw [iterate, mem_map]
  simp only [mem_insertionSort, mem_dedup]
  constructor
  · rintro ⟨z, hz, rfl⟩
    rw [Int.toNat_of_nonneg (h z hz)]
    exact hz
  · exact fun hi => ⟨i, hi, Int.toNat_natCast i⟩

theorem nodup_iterate {set : List ℤ} (h : ∀ z ∈ set, 0 ≤ z) : (iterate set).Nodup := by
  rw [iterate, nodup_map_iff_inj_on]
  · simp only [mem_insertionSort, mem_dedup]
    intro x hx y hy hxy
    have := h x hx
    have := h y hy
    omega
  · exact (perm_insertionSort _ _).nodup_iff.mpr (nodup_dedup _)

/-- The cores that are nested in a package. -/
theorem isNested_core_iff (hthread : 0 < t.threadPerCore) (hcore : 0 < t.corePerPackage) {p : ℕ}
    (hp : p < t.numPackage) (z : ℤ) :
    t.IsNested .core .package p z ↔ ∃ i : ℕ, z = i ∧ i / t.corePerPackage = p := by
  have hidx : t.IsIdx .package p := PlatformTopoImp.isIdx_natCast.mpr hp
  have hcpus : t.domainCpus .package p = .ok (t.cpusOf .package p) :=
    PlatformTopoImp.domainCpus_eq rfl hidx
  constructor
  · intro h
    obtain ⟨cpus, hcpus', -, cpu, hcpu, hz⟩ := h.elim
    obtain rfl := Except.ok.inj (hcpus.symm.trans hcpus')
    obtain ⟨thread, core, -, hlt, rfl⟩ := PlatformTopoImp.mem_cpusOf_package.mp hcpu
    rw [PlatformTopoImp.domainIdx_eq rfl (PlatformTopoImp.isIdx_of_domainIdx hz),
      PlatformTopoImp.cpuDomain_core hp hlt] at hz
    refine ⟨p * t.corePerPackage + core, (Except.ok.inj hz).symm, ?_⟩
    rw [Nat.mul_comm, Nat.mul_add_div hcore, Nat.div_eq_of_lt hlt, Nat.add_zero]
  · rintro ⟨i, rfl, hi⟩
    have hlt : i % t.corePerPackage < t.corePerPackage := Nat.mod_lt _ hcore
    have hinner : PlatformTopoImp.isNestedDomain .core .package = true := rfl
    have hnested := PlatformTopoImp.isNested_of hinner hcpus rfl
      (fun cpu hcpu => by
        obtain ⟨thread, core, hthread, hlt, rfl⟩ := PlatformTopoImp.mem_cpusOf_package.mp hcpu
        exact PlatformTopoImp.isIdx_natCast.mpr (PlatformTopoImp.cpuOf_lt hthread hp hlt))
      (PlatformTopoImp.mem_cpusOf_package.mpr ⟨0, i % t.corePerPackage, hthread, hlt, rfl⟩)
    rw [PlatformTopoImp.cpuDomain_core hp hlt, ← hi, Nat.mul_comm, Nat.div_add_mod] at hnested
    rwa [← hi]

theorem isPackages (hthread : 0 < t.threadPerCore) (hcore : 0 < t.corePerPackage)
    {indices : List (List ℕ)} (h : indicesInPackages t .core = .ok indices) :
    IsPackages t indices := by
  have hall := Prog.mapM_eq_ok.mp h
  have hlength : indices.length = t.numPackage := by
    rw [← hall.length_eq, length_range]
  refine ⟨hlength, fun p hp => ?_⟩
  have hp' : p < indices.length := hlength.symm ▸ hp
  have hget := (forall₂_iff_get.mp hall).2 p (by rwa [length_range]) hp'
  rw [get_eq_getElem, get_eq_getElem, getElem_range] at hget
  obtain ⟨set, hset, hl⟩ := Except.exists_of_map_eq_ok hget
  have hmem : ∀ z, z ∈ set ↔ ∃ i : ℕ, z = i ∧ i / t.corePerPackage = p := by
    intro z
    rw [← isNested_core_iff hthread hcore hp]
    refine ⟨fun hz => ⟨set, hset, hz⟩, ?_⟩
    rintro ⟨set', hset', hz⟩
    obtain rfl := Except.ok.inj (hset.symm.trans hset')
    exact hz
  have hnonneg : ∀ z ∈ set, 0 ≤ z := by
    intro z hz
    obtain ⟨i, rfl, -⟩ := (hmem z).mp hz
    exact Int.natCast_nonneg i
  refine ⟨indices[p], getElem?_eq_getElem hp', hl ▸ nodup_iterate hnonneg, fun i => ?_⟩
  rw [← hl, mem_iterate hnonneg, hmem]
  exact ⟨fun ⟨j, hj, hdiv⟩ => by rwa [Int.natCast_inj.mp hj], fun hdiv => ⟨i, rfl, hdiv⟩⟩

theorem indicesInPackages_cpu (h : t.threadPerCore = 1) :
    indicesInPackages t .cpu = indicesInPackages t .core := by
  have hidx : t.domainIdx .cpu = t.domainIdx .core := by
    funext cpu
    rw [PlatformTopoImp.domainIdx, PlatformTopoImp.domainIdx]
    split_ifs with hrange
    · rfl
    · rw [not_or, not_lt, not_le, PlatformTopoImp.numDomain_cpu, h, Nat.mul_one] at hrange
      push_cast at hrange
      simp only [Int.emod_eq_of_lt hrange.1 hrange.2]
  simp only [indicesInPackages, PlatformTopoImp.domainNested, hidx]
  rfl

end Topology

variable {c : Constants}

section Constants

variable {p : Platform}

theorem construct_eq_ok (h : p.construct = .ok c) :
    c.toPlatform = p ∧ indicesInPackages c.topo c.freqDomain = .ok c.packageCoreIndices ∧
      indicesInPackages c.topo .core = .ok c.coresInPackages := by
  obtain ⟨indices, hindices, h⟩ := Except.exists_of_bind_eq_ok h
  obtain ⟨cores, hcores, h⟩ := Except.exists_of_bind_eq_ok h
  cases h
  exact ⟨rfl, hindices, hcores⟩

theorem packageCoreIndices_eq (h : p.construct = .ok c)
    (hnested : PlatformTopoImp.isNestedDomain c.freqDomain .core = true)
    (hcount : c.topo.numDomain c.freqDomain = c.controlCount) :
    c.packageCoreIndices = c.coresInPackages := by
  obtain ⟨-, hindices, hcores⟩ := construct_eq_ok h
  have hdomain : c.freqDomain = .core ∨ c.freqDomain = .cpu := by
    revert hnested
    cases c.freqDomain <;> decide
  have heq : indicesInPackages c.topo c.freqDomain = indicesInPackages c.topo .core := by
    obtain hdomain | hdomain := hdomain
    · rw [hdomain]
    · rw [hdomain]
      refine indicesInPackages_cpu ?_
      rw [hdomain, Platform.controlCount] at hcount
      have hpos : 0 < c.topo.numDomain .core :=
        Nat.mul_pos c.numPackage_pos c.corePerPackage_pos
      exact Nat.eq_of_mul_eq_mul_left hpos (hcount.trans (Nat.mul_one _).symm)
  rw [heq, hcores] at hindices
  exact (Except.ok.inj hindices).symm

end Constants

/-! ### Sizes -/

/-- The detector has limits and a low priority frequency for each core. -/
structure SSTFrequencyLimitDetector.Sized (d : SSTFrequencyLimitDetector) (n : ℕ) : Prop where
  coreFrequencyLimits : d.coreFrequencyLimits.length = n
  coreLpFrequencies : d.coreLpFrequencies.length = n

/-- The vectors have an element for each core or package, and the frequencies are numbers.  Before
the first call, the cores have the maximum frequency and high priority. -/
structure Sized (c : Constants) (a : Agent) : Prop where
  lastCtlFrequency : a.lastCtlFrequency.length = c.controlCount
  isNumber : none ∉ a.lastCtlFrequency
  lastCtlClos : a.lastCtlClos = List.replicate c.controlCount .highPriority
  lastHash : a.lastHash.length = c.controlCount
  networkHint : a.networkHintSampleLength.length = c.controlCount
  nonNetworkHint : a.nonNetworkHintSampleLength.length = c.controlCount
  currentEpochMax : a.currentEpochMaxFrequency.length = c.controlCount
  lastEpochMax : a.lastEpochMaxFrequency.length = c.controlCount
  lastEpochFrequency :
    a.lastEpochFrequency.map List.length = c.packageCoreIndices.map List.length
  lastEpochNonNetworkTimeDiff :
    a.lastEpochNonNetworkTimeDiff.map List.length = c.packageCoreIndices.map List.length
  packageBalancers : a.packageBalancers.length = c.topo.numPackage
  detector : a.frequencyLimitDetector.Sized c.controlCount
  isEnabled : a.sstClosGovernor.isEnabled = (!a.isAdjustInitialized || a.useSstTf)
  initial : a.isAdjustInitialized = false →
    a.lastCtlFrequency = List.replicate c.controlCount (some c.frequencyMax) ∧
      a.frequencyLimitDetector = .init c.toPlatform

section Sizes

variable {a : Agent}

theorem sized_initPlatformIo (h : initPlatformIo c = .ok a) : Sized c a := by
  rw [initPlatformIo] at h
  split_ifs at h
  cases h
  constructor <;>
    simp [SSTFrequencyLimitDetector.init, map_map, Function.comp_def, mem_replicate]
  exact ⟨length_replicate, length_replicate⟩

theorem Sized.evaluateEpochs (h : Sized c a) (s : Samples) (counted : Value) :
    Sized c (evaluateEpochs c a s counted) where
  lastCtlFrequency := h.lastCtlFrequency
  isNumber := h.isNumber
  lastCtlClos := h.lastCtlClos
  lastHash := h.lastHash
  networkHint := h.networkHint
  nonNetworkHint := h.nonNetworkHint
  currentEpochMax := by
    rw [FrequencyBalancerAgent.evaluateEpochs, length_map]
    exact h.lastEpochMax
  lastEpochMax := h.currentEpochMax
  lastEpochFrequency := by
    simp [FrequencyBalancerAgent.evaluateEpochs, Function.comp_def]
  lastEpochNonNetworkTimeDiff := by
    refine ext_getElem ?_ fun i _ _ => ?_
    · simp [FrequencyBalancerAgent.evaluateEpochs]
    · simp [FrequencyBalancerAgent.evaluateEpochs]
  packageBalancers := h.packageBalancers
  detector := h.detector
  isEnabled := h.isEnabled
  initial := h.initial

theorem Sized.countHints (h : Sized c a) (s : Samples) : Sized c (countHints c a s) where
  lastCtlFrequency := h.lastCtlFrequency
  isNumber := h.isNumber
  lastCtlClos := h.lastCtlClos
  lastHash := by simp [FrequencyBalancerAgent.countHints]
  networkHint := by simp [FrequencyBalancerAgent.countHints, h.networkHint]
  nonNetworkHint := by simp [FrequencyBalancerAgent.countHints, h.nonNetworkHint]
  currentEpochMax := by simp [FrequencyBalancerAgent.countHints, h.currentEpochMax]
  lastEpochMax := h.lastEpochMax
  lastEpochFrequency := h.lastEpochFrequency
  lastEpochNonNetworkTimeDiff := h.lastEpochNonNetworkTimeDiff
  packageBalancers := h.packageBalancers
  detector := h.detector
  isEnabled := h.isEnabled
  initial := h.initial

/-- Sampling keeps the sizes. -/
theorem Sized.samplePlatform (h : Sized c a) {s : Samples} {a' : Agent}
    (ha' : samplePlatform c a s = some a') : Sized c a' := by
  have hcount := h.countHints s
  rw [FrequencyBalancerAgent.samplePlatform] at ha'
  split_ifs at ha'
  · cases ha'
    exact { hcount with }
  · cases ha'
    exact hcount.evaluateEpochs s _
  · cases ha'
    exact { hcount with }
  · cases ha'
    exact hcount

end Sizes

/-! ### The loops -/

namespace SSTFrequencyLimitDetector

variable {d : SSTFrequencyLimitDetector} {observed : List Value}

theorem Sized.setCore (h : d.Sized c.controlCount) {i : ℕ} (hi : i < c.controlCount)
    (limits : Limits) (lpFrequency : ℚ) :
    ∃ d', d.setCore i limits lpFrequency = some d' ∧ d'.Sized c.controlCount := by
  refine ⟨⟨d.coreFrequencyLimits.set i limits, d.coreLpFrequencies.set i lpFrequency⟩, ?_,
    by rw [length_set, h.coreFrequencyLimits], by rw [length_set, h.coreLpFrequencies]⟩
  rw [SSTFrequencyLimitDetector.setCore, put_of_lt (by rwa [h.coreFrequencyLimits]),
    put_of_lt (by rwa [h.coreLpFrequencies])]
  rfl

theorem Sized.updatePackage (h : d.Sized c.controlCount)
    (hpackages : IsPackages c.topo c.coresInPackages) (hobserved : observed.length = c.controlCount)
    (samples : LimitSamples) {p : ℕ} (hp : p < c.topo.numPackage) :
    ∃ d', updatePackage c observed samples d p = some d' ∧ d'.Sized c.controlCount := by
  obtain ⟨cores, hcores, -, hmem⟩ := hpackages.cores p hp
  have hlt : ∀ i ∈ cores, i < c.controlCount := by
    intro i hi
    exact (Nat.div_lt_iff_lt_mul c.corePerPackage_pos).mp (((hmem i).mp hi).trans_lt hp)
  simp only [SSTFrequencyLimitDetector.updatePackage, hcores, Option.bind_eq_bind, Option.bind_some]
  split_ifs with htf
  · refine foldlM_keeps (P := fun d : SSTFrequencyLimitDetector => d.Sized c.controlCount) h fun i hi t ht => ?_
    rw [getElem?_eq_getElem (hobserved.symm ▸ hlt i hi)]
    exact ht.setCore (hlt i hi) _ _
  · obtain ⟨frequencies, hfrequencies, hlength, -⟩ :=
      mapM_get observed cores fun i hi => hobserved.symm ▸ hlt i hi
    have hne : cores ≠ [] := by
      refine ne_nil_of_mem ((hmem (p * c.topo.corePerPackage)).mpr ?_)
      exact Nat.mul_div_cancel _ c.corePerPackage_pos
    cases frequencies with
    | nil => exact absurd (length_eq_zero_iff.mp hlength.symm) hne
    | cons frequency rest =>
      rw [hfrequencies]
      exact foldlM_keeps (P := fun d : SSTFrequencyLimitDetector => d.Sized c.controlCount) h fun i hi t ht =>
        ht.setCore (hlt i hi) _ _

theorem Sized.updateMaxFrequencyEstimates (h : d.Sized c.controlCount)
    (hpackages : IsPackages c.topo c.coresInPackages) (hobserved : observed.length = c.controlCount)
    (samples : LimitSamples) :
    ∃ d', d.updateMaxFrequencyEstimates c observed samples = some d' ∧ d'.Sized c.controlCount :=
  foldlM_keeps h fun _ hp _ hd =>
    Sized.updatePackage hd hpackages hobserved samples (mem_range.mp hp)

end SSTFrequencyLimitDetector

/-! ### What a balancer computes -/

section Loops

variable {a : Agent}

theorem roundTowardPrevious_ne_none (c : Constants) (previous : Value) {frequency : Value}
    (h : frequency ≠ none) : roundTowardPrevious c previous frequency ≠ none := by
  obtain ⟨x, rfl⟩ := Option.ne_none_iff_exists'.mp h
  rw [roundTowardPrevious]
  split_ifs <;> exact Option.some_ne_none _

theorem exists_considerCores (h : a.frequencyLimitDetector.Sized c.controlCount)
    {controls : List ℕ} (hlt : ∀ i ∈ controls, i < c.controlCount) (s : Achievable) :
    ∃ s', controls.foldlM (considerCore a.frequencyLimitDetector) s = some s' := by
  suffices hkeeps : ∃ s', controls.foldlM (considerCore a.frequencyLimitDetector) s = some s' ∧ True
    from hkeeps.imp fun _ hs => hs.1
  refine foldlM_keeps (P := fun _ : Achievable => True) trivial fun i hi t _ => ?_
  simp only [considerCore]
  rw [getElem?_eq_getElem (h.coreFrequencyLimits.symm ▸ hlt i hi),
    getElem?_eq_getElem (h.coreLpFrequencies.symm ▸ hlt i hi)]
  refine foldlM_keeps (P := fun _ : Achievable => True) trivial fun limit _ u _ => ?_
  split_ifs
  · exact ⟨_, rfl, trivial⟩
  · exact ⟨_, rfl, trivial⟩

theorem exists_packageVector {vs : List (List Value)} {indices : List (List ℕ)}
    (h : vs.map List.length = indices.map List.length) {p : ℕ} {l : List ℕ}
    (hl : indices[p]? = some l) : ∃ v, vs[p]? = some v ∧ v.length = l.length := by
  have hlength : (vs.map List.length)[p]? = some l.length := by
    rw [h, getElem?_map, hl]
    rfl
  rw [getElem?_map, Option.map_eq_some_iff] at hlength
  exact hlength

theorem Sized.balancedFrequencies (h : Sized c a) {p : ℕ} (hp : p < c.topo.numPackage)
    {controls : List ℕ} (hcontrols : c.packageCoreIndices[p]? = some controls)
    (hlt : ∀ i ∈ controls, i < c.controlCount) (hne : controls ≠ []) :
    ∃ result b, balancedFrequencies c a p controls = some (result, b) ∧
      result.length = controls.length ∧ none ∉ result := by
  obtain ⟨control, hcontrol, hlength, hmem⟩ :=
    mapM_get a.lastCtlFrequency _ fun i hi => h.lastCtlFrequency.symm ▸ hlt i hi
  obtain ⟨s, hs⟩ := exists_considerCores h.detector hlt ⟨some 0, [], some c.frequencyMin⟩
  obtain ⟨times, htimes, htimesLength⟩ :=
    exists_packageVector h.lastEpochNonNetworkTimeDiff hcontrols
  obtain ⟨frequencies, hfrequencies, hfrequenciesLength⟩ :=
    exists_packageVector h.lastEpochFrequency hcontrols
  have hbalancer : p < a.packageBalancers.length := h.packageBalancers.symm ▸ hp
  have hsizes : times.length = control.length ∧ frequencies.length = control.length ∧
      control ≠ [] := by
    refine ⟨by rw [htimesLength, hlength], by rw [hfrequenciesLength, hlength], ?_⟩
    rintro rfl
    exact hne (length_eq_zero_iff.mp hlength.symm)
  simp only [FrequencyBalancerAgent.balancedFrequencies, hcontrol, hs, htimes, hfrequencies,
    getElem?_eq_getElem hbalancer, Option.bind_eq_bind, Option.bind_some, balanceVectors]
  rw [if_pos hsizes]
  refine ⟨_, _, rfl, ?_, ?_⟩
  · rw [length_ofFn, hlength]
  · intro hnone
    obtain ⟨i, hi⟩ := (mem_ofFn' _ _).mp hnone
    refine FrequencyTimeBalancer.getBalancedFrequencies_ne_none (fun j hj => ?_) _ i hi
    exact h.isNumber (hmem none (hj ▸ get_mem _ _))

/-- What the loop that rounds leaves: a frequency for each control of the package, and the others as
they were. -/
structure Rounded (c : Constants) (indices : List ℕ) (last computed last' : List Value) : Prop where
  length : last'.length = last.length
  other : ∀ i ∉ indices, last'[i]? = last[i]?
  rounded : ∀ x ∈ indices.zipIdx, ∃ previous frequency, last[x.1]? = some previous ∧
    computed[x.2]? = some frequency ∧ last'[x.1]? = some (roundTowardPrevious c previous frequency)

/-- The loop that rounds what a balancer has computed. -/
theorem exists_rounded {indices : List ℕ} {last computed : List Value} (hnodup : indices.Nodup)
    (hlt : ∀ i ∈ indices, i < last.length) (hlength : computed.length = indices.length) :
    ∃ last' computed', indices.zipIdx.foldlM (roundControl c) (last, computed) =
        some (last', computed') ∧
      computed'.length = computed.length ∧ Rounded c indices last computed last' := by
  -- what is done for the controls so far, and that the elements of the others are as they were
  let P : List (ℕ × ℕ) → List Value × List Value → Prop := fun done s =>
    (s.1.length = last.length ∧ s.2.length = computed.length) ∧
    (∀ i, (∀ x ∈ done, x.1 ≠ i) → s.1[i]? = last[i]?) ∧
    (∀ j, (∀ x ∈ done, x.2 ≠ j) → s.2[j]? = computed[j]?) ∧
    ∀ x ∈ done, ∃ previous frequency, last[x.1]? = some previous ∧
      computed[x.2]? = some frequency ∧ s.1[x.1]? = some (roundTowardPrevious c previous frequency)
  obtain ⟨⟨last', computed'⟩, hloop, ⟨hlast, hcomputed⟩, hother, -, hrounded⟩ :
      ∃ s, indices.zipIdx.foldlM (roundControl c) (last, computed) = some s ∧
        P indices.zipIdx s := by
    refine foldlM_total ⟨⟨rfl, rfl⟩, fun _ _ => rfl, fun _ _ => rfl,
      fun x hx => absurd hx not_mem_nil⟩ ?_
    rintro done ⟨i, j⟩ rest hxs ⟨last', computed'⟩ ⟨⟨hlast, hcomputed⟩, hother, hother', hdone⟩
    have hmem : (i, j) ∈ indices.zipIdx := by
      rw [hxs]
      exact mem_append_right _ mem_cons_self
    have hj : j < indices.length := by
      have := snd_lt_of_mem_zipIdx hmem
      omega
    have hi : i < last'.length := hlast.symm ▸ hlt i (fst_mem_of_mem_zipIdx hmem)
    have hj' : j < computed'.length := by rw [hcomputed, hlength]; exact hj
    have hfresh : ∀ x ∈ done, x.1 ≠ i := by
      have hfst : (done.map Prod.fst ++ i :: rest.map Prod.fst).Nodup := by
        have hmap := congrArg (List.map Prod.fst) hxs
        rw [zipIdx_map_fst, map_append, map_cons] at hmap
        rwa [← hmap]
      intro x hx hxi
      exact (nodup_append.mp hfst).2.2 x.1 (mem_map_of_mem hx) i mem_cons_self hxi
    have hfresh' : ∀ x ∈ done, x.2 ≠ j := by
      have hsnd : (done.map Prod.snd ++ j :: rest.map Prod.snd).Nodup := by
        have hmap := congrArg (List.map Prod.snd) hxs
        rw [zipIdx_map_snd, map_append, map_cons] at hmap
        rw [← hmap]
        exact nodup_range'
      intro x hx hxj
      exact (nodup_append.mp hsnd).2.2 x.2 (mem_map_of_mem hx) j mem_cons_self hxj
    have hprevious := hother i hfresh
    have hfrequency := hother' j hfresh'
    rw [getElem?_eq_getElem hi] at hprevious
    rw [getElem?_eq_getElem hj'] at hfrequency
    refine ⟨(last'.set i (roundTowardPrevious c last'[i] computed'[j]),
      computed'.set j (roundTowardPrevious c last'[i] computed'[j])), ?_, ?_, ?_, ?_, ?_⟩
    · simp only [roundControl, getElem?_eq_getElem hi, getElem?_eq_getElem hj',
        put_of_lt hi, put_of_lt hj', Option.bind_eq_bind, Option.bind_some]
    · exact ⟨by rw [length_set, hlast], by rw [length_set, hcomputed]⟩
    · intro k hk
      have hne : i ≠ k := hk (i, j) (mem_append_right _ mem_cons_self)
      rw [getElem?_set_eq hi, if_neg hne]
      exact hother k fun x hx => hk x (mem_append_left _ hx)
    · intro k hk
      have hne : j ≠ k := hk (i, j) (mem_append_right _ mem_cons_self)
      rw [getElem?_set_eq hj', if_neg hne]
      exact hother' k fun x hx => hk x (mem_append_left _ hx)
    · intro x hx
      rw [mem_append, mem_singleton] at hx
      obtain hx | rfl := hx
      · obtain ⟨previous, frequency, hp, hf, hr⟩ := hdone x hx
        refine ⟨previous, frequency, hp, hf, ?_⟩
        rw [getElem?_set_eq hi, if_neg (hfresh x hx).symm, hr]
      · refine ⟨last'[i], computed'[j], hprevious.symm, hfrequency.symm, ?_⟩
        rw [getElem?_set_eq hi, if_pos rfl]
  refine ⟨last', computed', hloop, hcomputed, hlast, fun i hi => hother i fun x hx hxi => ?_,
    hrounded⟩
  exact hi (hxi ▸ fst_mem_of_mem_zipIdx hx)

theorem Rounded.isNumber {indices : List ℕ} {last computed last' : List Value}
    (h : Rounded c indices last computed last') (hlast : none ∉ last) (hcomputed : none ∉ computed) :
    none ∉ last' := by
  intro hnone
  obtain ⟨i, hi⟩ := mem_iff_getElem?.mp hnone
  by_cases hmem : i ∈ indices
  · obtain ⟨j, hj⟩ := mem_iff_getElem?.mp hmem
    obtain ⟨previous, frequency, -, hfrequency, hrounded⟩ :=
      h.rounded (i, j) (mk_mem_zipIdx_iff_getElem?.mpr hj)
    rw [hi] at hrounded
    refine roundTowardPrevious_ne_none c previous ?_ (Option.some.inj hrounded).symm
    rintro rfl
    exact hcomputed (mem_of_getElem? hfrequency)
  · rw [h.other i hmem] at hi
    exact hlast (mem_of_getElem? hi)

end Loops

/-! ### The packages -/

/-- The frequencies that are remembered for the cores of a package are those that its own balancer
computes for them, rounded to the step towards the previous ones. -/
def Computed (c : Constants) (a : Agent) (last' : List Value) (p : ℕ) : Prop :=
  ∃ cores result b, c.coresInPackages[p]? = some cores ∧
    balancedFrequencies c a p cores = some (result, b) ∧
    ∀ x ∈ cores.zipIdx, ∃ previous frequency, a.lastCtlFrequency[x.1]? = some previous ∧
      result[x.2]? = some frequency ∧ last'[x.1]? = some (roundTowardPrevious c previous frequency)

/-- What the loop over the packages leaves after some of them. -/
structure Balanced (c : Constants) (a : Agent) (done : List ℕ) (a' : Agent) : Prop where
  eq : a' = { a with
    lastCtlFrequency := a'.lastCtlFrequency, packageBalancers := a'.packageBalancers }
  length : a'.lastCtlFrequency.length = c.controlCount
  isNumber : none ∉ a'.lastCtlFrequency
  packageBalancers : a'.packageBalancers.length = c.topo.numPackage
  other : ∀ i, i / c.topo.corePerPackage ∉ done → a'.lastCtlFrequency[i]? = a.lastCtlFrequency[i]?
  balancer : ∀ p ∉ done, a'.packageBalancers[p]? = a.packageBalancers[p]?
  computed : ∀ p ∈ done, Computed c a a'.lastCtlFrequency p

section Packages

variable {a a' : Agent} {done : List ℕ} {p : ℕ}

/-- The index of a core is in range. -/
theorem core_lt (c : Constants) {i : ℕ} (hp : p < c.topo.numPackage)
    (hi : i / c.topo.corePerPackage = p) : i < c.controlCount :=
  (Nat.div_lt_iff_lt_mul c.corePerPackage_pos).mp (hi.trans_lt hp)

theorem length_cores (c : Constants) {cores : List ℕ} (hnodup : cores.Nodup)
    (hmem : ∀ i, i ∈ cores ↔ i / c.topo.corePerPackage = p) :
    cores.length = c.topo.corePerPackage := by
  have hperm : cores.Perm (List.range' (p * c.topo.corePerPackage) c.topo.corePerPackage) := by
    refine (perm_ext_iff_of_nodup hnodup nodup_range').mpr fun i => ?_
    have hpos := c.corePerPackage_pos
    rw [hmem, mem_range'_1, Nat.div_eq_iff hpos]
    omega
  rw [hperm.length_eq, length_range']

theorem Balanced.balancedFrequencies_eq (h : Balanced c a done a') (hp : p ∉ done)
    {cores : List ℕ} (hcores : ∀ i ∈ cores, i / c.topo.corePerPackage = p) :
    balancedFrequencies c a' p cores = balancedFrequencies c a p cores := by
  have hread : cores.mapM (fun i => a'.lastCtlFrequency[i]?) =
      cores.mapM fun i => a.lastCtlFrequency[i]? :=
    mapM_get_congr fun i hi => h.other i (by rwa [hcores i hi])
  have hbalancer := h.balancer p hp
  rw [balancedFrequencies, balancedFrequencies, hread, hbalancer, h.eq]

theorem Balanced.sized (h : Balanced c a done a') (hs : Sized c a)
    (hinit : a.isAdjustInitialized = true) : Sized c a' := by
  rw [h.eq]
  exact { hs with
    lastCtlFrequency := h.length
    isNumber := h.isNumber
    packageBalancers := h.packageBalancers
    initial := fun hfalse => Bool.noConfusion (hinit.symm.trans hfalse) }

/-- One turn of the loop over the packages. -/
theorem Balanced.balancePackage (h : Balanced c a done a') (hs : Sized c a)
    (hinit : a.isAdjustInitialized = true) (hpackages : IsPackages c.topo c.coresInPackages)
    (heq : c.packageCoreIndices = c.coresInPackages) (hp : p < c.topo.numPackage) (hnew : p ∉ done)
    (frequencyByCore : List Value) :
    ∃ a'' frequencyByCore', balancePackage c (a', frequencyByCore) p = some (a'', frequencyByCore') ∧
      Balanced c a (done ++ [p]) a'' ∧ frequencyByCore'.length = c.topo.corePerPackage := by
  obtain ⟨cores, hcores, hnodup, hmem⟩ := hpackages.cores p hp
  have hs' := h.sized hs hinit
  have hlt : ∀ i ∈ cores, i < c.controlCount := fun i hi => core_lt c hp ((hmem i).mp hi)
  have hlength := length_cores c hnodup hmem
  have hne : cores ≠ [] := ne_nil_of_length_pos (hlength.symm ▸ c.corePerPackage_pos)
  obtain ⟨result, b, hresult, hresultLength, hnumbers⟩ :=
    hs'.balancedFrequencies hp (heq ▸ hcores) hlt hne
  obtain ⟨last', computed', hloop, hcomputed', hrounded⟩ :=
    exists_rounded (c := c) hnodup (fun i hi => hs'.lastCtlFrequency.symm ▸ hlt i hi) hresultLength
  refine ⟨{ a' with
    lastCtlFrequency := last', packageBalancers := a'.packageBalancers.set p b }, computed', ?_, ?_,
    by rw [hcomputed', hresultLength, hlength]⟩
  · simp only [FrequencyBalancerAgent.balancePackage, heq, hcores, hresult, hloop,
      Option.bind_eq_bind, Option.bind_some]
  constructor
  · show ({ a' with lastCtlFrequency := _, packageBalancers := _ } : Agent) = _
    rw [h.eq]
  · exact hrounded.length.trans h.length
  · exact hrounded.isNumber h.isNumber hnumbers
  · show (a'.packageBalancers.set p b).length = _
    rw [length_set, h.packageBalancers]
  · intro i hi
    rw [mem_append, mem_singleton, not_or] at hi
    exact (hrounded.other i fun hmem' => hi.2 ((hmem i).mp hmem')).trans (h.other i hi.1)
  · intro q hq
    rw [mem_append, mem_singleton, not_or] at hq
    show (a'.packageBalancers.set p b)[q]? = _
    rw [getElem?_set_ne fun hpq => hq.2 hpq.symm, h.balancer q hq.1]
  · intro q hq
    rw [mem_append, mem_singleton] at hq
    obtain hq | rfl := hq
    · -- the cores of another package are not touched
      obtain ⟨cores', result', b', hcores', hresult', hall⟩ := h.computed q hq
      refine ⟨cores', result', b', hcores', hresult', fun x hx => ?_⟩
      obtain ⟨previous, frequency, hprevious, hfrequency, hlast⟩ := hall x hx
      refine ⟨previous, frequency, hprevious, hfrequency,
        (hrounded.other x.1 fun hx' => hnew ?_).trans hlast⟩
      have hx'' := (hpackages.mem_iff hcores').mp (fst_mem_of_mem_zipIdx hx)
      rwa [← (hmem x.1).mp hx', hx'']
    · rw [h.balancedFrequencies_eq hnew fun i hi => (hmem i).mp hi] at hresult
      refine ⟨cores, result, b, hcores, hresult, fun x hx => ?_⟩
      obtain ⟨previous, frequency, hprevious, hfrequency, hlast⟩ := hrounded.rounded x hx
      refine ⟨previous, frequency, ?_, hfrequency, hlast⟩
      rw [← hprevious]
      refine (h.other x.1 ?_).symm
      rwa [(hmem x.1).mp (fst_mem_of_mem_zipIdx hx)]

/-- Handling new epochs stays in range, and remembers what the balancers compute. -/
theorem Sized.balancePackages (h : Sized c a) (hinit : a.isAdjustInitialized = true)
    (hpackages : IsPackages c.topo c.coresInPackages)
    (heq : c.packageCoreIndices = c.coresInPackages) (samples : LimitSamples) :
    ∃ detector a' frequencyByCore, detector.Sized c.controlCount ∧
      balancePackages c a samples = some (a', frequencyByCore) ∧
      Balanced c { a with handleNewEpoch := false, frequencyLimitDetector := detector }
        (List.range c.topo.numPackage) a' ∧
      frequencyByCore.length = c.topo.corePerPackage := by
  obtain ⟨detector, hdetector, hsized⟩ :=
    h.detector.updateMaxFrequencyEstimates hpackages h.lastEpochMax samples
  set a₀ : Agent := { a with handleNewEpoch := false, frequencyLimitDetector := detector } with ha₀
  have h₀ : Sized c a₀ :=
    { h with detector := hsized, initial := fun hfalse => Bool.noConfusion (hinit.symm.trans hfalse) }
  -- what is left after some packages; the second part is the size of `frequency_by_core`
  let P : List ℕ → Agent × List Value → Prop := fun done s =>
    Balanced c a₀ done s.1 ∧ (done ≠ [] → s.2.length = c.topo.corePerPackage)
  obtain ⟨⟨a', frequencyByCore⟩, hloop, hbalanced, hlength⟩ :
      ∃ s, (List.range c.topo.numPackage).foldlM (balancePackage c) (a₀, a₀.lastCtlFrequency) =
        some s ∧ P (List.range c.topo.numPackage) s := by
    refine foldlM_total ⟨⟨rfl, h₀.lastCtlFrequency, h₀.isNumber, h₀.packageBalancers,
      fun _ _ => rfl, fun _ _ => rfl, fun p hp => absurd hp not_mem_nil⟩,
      fun hne => absurd rfl hne⟩ ?_
    rintro done p rest hrange ⟨a', frequencyByCore⟩ ⟨hbalanced, -⟩
    have hp : p < c.topo.numPackage := by
      rw [← mem_range, hrange]
      exact mem_append_right _ mem_cons_self
    have hnew : p ∉ done := by
      have hnodup : (done ++ p :: rest).Nodup := hrange ▸ nodup_range
      exact fun hmem => (nodup_append.mp hnodup).2.2 p hmem p mem_cons_self rfl
    obtain ⟨a'', frequencyByCore', hstep, hbalanced', hlength⟩ :=
      hbalanced.balancePackage h₀ hinit hpackages heq hp hnew frequencyByCore
    exact ⟨(a'', frequencyByCore'), hstep, hbalanced', fun _ => hlength⟩
  refine ⟨detector, a', frequencyByCore, hsized, ?_, hbalanced, hlength ?_⟩
  · rw [FrequencyBalancerAgent.balancePackages, hdetector]
    exact hloop
  · rw [Ne, range_eq_nil]
    exact c.numPackage_pos.ne'

/-! ### The immediate controls -/

theorem Sized.immediateControls (h : Sized c a) (hpackages : IsPackages c.topo c.coresInPackages)
    (heq : c.packageCoreIndices = c.coresInPackages) :
    ∃ immediate, immediateControls c a = some immediate ∧
      immediate.length = c.controlCount ∧ none ∉ immediate := by
  -- what each turn keeps
  let P : List Value → Prop := fun immediate =>
    immediate.length = c.controlCount ∧ none ∉ immediate
  have hset : ∀ immediate, P immediate → ∀ (i : ℕ) (x : ℚ), P (immediate.set i (some x)) := by
    refine fun immediate himmediate i x => ⟨by rw [length_set, himmediate.1], fun hnone => ?_⟩
    exact (mem_or_eq_of_mem_set hnone).elim himmediate.2 nofun
  refine foldlM_keeps (P := P) ⟨h.lastCtlFrequency, h.isNumber⟩ fun p hp immediate himmediate => ?_
  obtain ⟨cores, hcores, -, hmem⟩ := hpackages.cores p (mem_range.mp hp)
  have hlt : ∀ i ∈ cores, i < c.controlCount := fun i hi =>
    core_lt c (mem_range.mp hp) ((hmem i).mp hi)
  obtain ⟨⟨lowered, count⟩, hlowered, hP⟩ : ∃ s, cores.foldlM (lowerWaiting c a) (immediate, 0) =
      some s ∧ P s.1 := by
    refine foldlM_keeps (P := fun s : List Value × ℕ => P s.1) himmediate ?_
    rintro i hi ⟨t, n⟩ ht
    have hi' := hlt i hi
    simp only [lowerWaiting, getElem?_eq_getElem (h.lastHash.symm ▸ hi'),
      getElem?_eq_getElem (h.networkHint.symm ▸ hi'),
      getElem?_eq_getElem (h.detector.coreLpFrequencies.symm ▸ hi'),
      getElem?_eq_getElem (ht.1.symm ▸ hi'), put_of_lt (ht.1.symm ▸ hi'),
      Option.bind_eq_bind, Option.bind_some]
    split_ifs
    · exact ⟨_, rfl, hset t ht i _⟩
    · exact ⟨_, rfl, ht⟩
    · exact ⟨_, rfl, ht⟩
  simp only [immediatePackage, heq, hcores, hlowered, Option.bind_eq_bind, Option.bind_some]
  split_ifs
  · refine foldlM_keeps (P := P) hP fun i hi t ht => ?_
    have hi' := hlt i hi
    simp only [raiseNotWaiting, getElem?_eq_getElem (h.nonNetworkHint.symm ▸ hi'),
      put_of_lt (ht.1.symm ▸ hi'), Option.bind_eq_bind, Option.bind_some]
    split_ifs
    · exact ⟨_, rfl, hset t ht i _⟩
    · exact ⟨_, rfl, ht⟩
  · exact ⟨_, rfl, hP⟩

end Packages

/-! ### What a call does -/

/-- Prioritized turbo is in use in a call; the first call takes it from the policy. -/
def usesSstTf (a : Agent) (policy : Policy) : Bool :=
  if a.isAdjustInitialized then a.useSstTf else decide (policy.useSstTf ≠ some 0)

/-- The class that a frequency calls for. -/
def closFor (frequency : Value) (lpFrequency : ℚ) : ClosLevel :=
  if frequency.le (some lpFrequency) then .lowPriority else .highPriority

/-- Each core of every package gets the class that its immediate frequency calls for. -/
def Assigned (c : Constants) (a' : Agent) (immediate : List Value) : Prop :=
  ∀ cores ∈ c.coresInPackages, ∀ i ∈ cores, ∃ frequency lpFrequency,
    immediate[i]? = some frequency ∧
    a'.frequencyLimitDetector.coreLpFrequencies[i]? = some lpFrequency ∧
    a'.sstClosGovernor.lastClos[i]? = some (closFor frequency lpFrequency)

/-- A call that handles new epochs remembers what the balancers compute, and others change no
frequency that is remembered. -/
def Remembered (c : Constants) (a a' : Agent) : Prop :=
  if a.isAdjustInitialized ∧ a.handleNewEpoch then
    ∀ p < c.topo.numPackage,
      Computed c { a with frequencyLimitDetector := a'.frequencyLimitDetector }
        a'.lastCtlFrequency p
  else a'.lastCtlFrequency = a.lastCtlFrequency

/-- A call stays in range, the cores get the classes that they should have, and the right
frequencies are remembered. -/
def Right (c : Constants) (a : Agent) (policy : Policy) (samples : LimitSamples) : Prop :=
  ∃ a' adjustment, adjustPlatform c a policy samples = some (a', adjustment) ∧
    Assigned c a' adjustment.immediate ∧ Remembered c a a'

/-- There is a frequency control for each core.  With prioritized turbo, the first call needs a
maximum frequency that the low priority cores are not expected to achieve, and one that handles new
epochs needs a single package. -/
def Suitable (c : Constants) (a : Agent) (policy : Policy) : Prop :=
  if a.isAdjustInitialized then
    c.topo.numDomain c.freqDomain = c.controlCount ∧
      (a.useSstTf = true → a.handleNewEpoch = true → c.topo.numPackage = 1)
  else policy.useSstTf ≠ some 0 → c.frequencySticker < c.frequencyMax

section Calls

variable {a a' : Agent} {policy : Policy} {samples : LimitSamples}

/-- The cores of the packages are those of the platform. -/
theorem IsPackages.lt (h : IsPackages c.topo c.coresInPackages) {cores : List ℕ}
    (hcores : cores ∈ c.coresInPackages) {i : ℕ} (hi : i ∈ cores) : i < c.controlCount := by
  obtain ⟨p, hp⟩ := mem_iff_getElem?.mp hcores
  exact core_lt c (h.length ▸ (List.getElem?_eq_some_iff.mp hp).1) ((h.mem_iff hp).mp hi)

/-- For numbers, what the source asks for is the class. -/
theorem ite_gt_eq_closFor {frequency : Value} (h : frequency ≠ none) (lpFrequency : ℚ) :
    (if frequency.gt (some lpFrequency) then ClosLevel.highPriority else .lowPriority) =
      closFor frequency lpFrequency := by
  obtain ⟨x, rfl⟩ := Option.ne_none_iff_exists'.mp h
  rw [closFor]
  simp only [Value.gt, Value.le, decide_eq_true_eq]
  rcases lt_or_ge lpFrequency x with hlt | hge
  · rw [if_pos hlt, if_neg hlt.not_ge]
  · rw [if_neg hge.not_gt, if_pos hge]

/-- The loop that assigns the classes reaches the first cores, and the others keep high priority. -/
theorem Sized.assignClos (h : Sized c a) {immediate : List Value}
    (hlength : immediate.length = c.controlCount) (hnumbers : none ∉ immediate) {n : ℕ}
    (hn : n ≤ c.controlCount) :
    ∃ closByCore, (List.range n).foldlM (assignClos a immediate) a.lastCtlClos = some closByCore ∧
      closByCore.length = c.controlCount ∧
      (∀ i < n, ∃ frequency lpFrequency, immediate[i]? = some frequency ∧
        a.frequencyLimitDetector.coreLpFrequencies[i]? = some lpFrequency ∧
        closByCore[i]? = some (closFor frequency lpFrequency)) ∧
      ∀ i, n ≤ i → i < c.controlCount → closByCore[i]? = some .highPriority := by
  have hclos : a.lastCtlClos.length = c.controlCount := by
    rw [h.lastCtlClos, length_replicate]
  let wanted : ℕ → Option ClosLevel := fun i => immediate[i]?.bind fun frequency =>
    a.frequencyLimitDetector.coreLpFrequencies[i]?.map fun lpFrequency =>
      if frequency.gt (some lpFrequency) then .highPriority else .lowPriority
  have hwanted : ∀ i < c.controlCount, ∃ frequency lpFrequency, immediate[i]? = some frequency ∧
      a.frequencyLimitDetector.coreLpFrequencies[i]? = some lpFrequency ∧
      wanted i = some (closFor frequency lpFrequency) := by
    intro i hi
    have hi' : i < immediate.length := hlength.symm ▸ hi
    have hi'' := h.detector.coreLpFrequencies.symm ▸ hi
    refine ⟨immediate[i], a.frequencyLimitDetector.coreLpFrequencies[i],
      getElem?_eq_getElem hi', getElem?_eq_getElem hi'', ?_⟩
    simp only [wanted, getElem?_eq_getElem hi', getElem?_eq_getElem hi'',
      Option.bind_some, Option.map_some]
    rw [ite_gt_eq_closFor fun hnone => hnumbers (hnone ▸ getElem_mem hi')]
  have hstep : FrequencyBalancerAgent.assignClos a immediate =
      fun closByCore i => (wanted i).bind (put closByCore i) := by
    funext closByCore i
    simp only [FrequencyBalancerAgent.assignClos, wanted, Option.bind_eq_bind]
    cases immediate[i]? <;> cases a.frequencyLimitDetector.coreLpFrequencies[i]? <;> rfl
  rw [hstep]
  obtain ⟨closByCore, hloop, hsize, hassigned, hother⟩ :=
    foldlM_put wanted a.lastCtlClos (List.range n) fun i hi => by
      have hi' : i < c.controlCount := (mem_range.mp hi).trans_le hn
      obtain ⟨frequency, lpFrequency, -, -, hw⟩ := hwanted i hi'
      exact ⟨hclos.symm ▸ hi', _, hw⟩
  refine ⟨closByCore, hloop, hsize.trans hclos, fun i hi => ?_, fun i hi hlt => ?_⟩
  · obtain ⟨frequency, lpFrequency, hf, hlp, hw⟩ := hwanted i (hi.trans_le hn)
    exact ⟨frequency, lpFrequency, hf, hlp, (hassigned i (mem_range.mpr hi)).trans hw⟩
  · rw [hother i fun hmem => absurd (mem_range.mp hmem) hi.not_gt, h.lastCtlClos,
      getElem?_replicate, if_pos hlt]

/-- The part of a call that handles new epochs, or has none to handle; the second result is
`frequency_by_core`. -/
theorem exists_handleEpochs (h : Sized c a) (hinit : a.isAdjustInitialized = true)
    (hpackages : IsPackages c.topo c.coresInPackages)
    (heq : c.packageCoreIndices = c.coresInPackages) (samples : LimitSamples) :
    ∃ a₁ frequencyByCore, handleEpochs c a samples = some (a₁, frequencyByCore) ∧ Sized c a₁ ∧
      Remembered c a a₁ ∧
      frequencyByCore.length =
        (if a.handleNewEpoch then c.topo.corePerPackage else c.controlCount) ∧
      a₁.useSstTf = a.useSstTf ∧ a₁.isAdjustInitialized = true ∧
      a₁.sstClosGovernor = a.sstClosGovernor := by
  unfold Remembered handleEpochs
  rw [hinit]
  cases hnew : a.handleNewEpoch with
  | false => exact ⟨a, a.lastCtlFrequency, rfl, h, rfl, h.lastCtlFrequency, rfl, hinit, rfl⟩
  | true =>
    obtain ⟨detector, a₁, frequencyByCore, hdetector, hbalance, hbalanced, hlength⟩ :=
      h.balancePackages hinit hpackages heq samples
    have h₀ : Sized c { a with handleNewEpoch := false, frequencyLimitDetector := detector } :=
      { h with
        detector := hdetector
        initial := fun hfalse => Bool.noConfusion (hinit.symm.trans hfalse) }
    refine ⟨a₁, frequencyByCore, hbalance, hbalanced.sized h₀ hinit, ?_, hlength, ?_⟩
    · have hdet : a₁.frequencyLimitDetector = detector := by rw [hbalanced.eq]
      rw [if_pos ⟨rfl, rfl⟩, hdet]
      exact fun p hp => hbalanced.computed p (mem_range.mpr hp)
    · rw [hbalanced.eq]
      exact ⟨rfl, hinit, rfl⟩

/-- What a call does once the agent is initialized: with new epochs to handle, only as many cores as
a package has get a class. -/
theorem exists_adjustPlatform (h : Sized c a) (hinit : a.isAdjustInitialized = true)
    (hpackages : IsPackages c.topo c.coresInPackages)
    (heq : c.packageCoreIndices = c.coresInPackages) (policy : Policy) (samples : LimitSamples) :
    ∃ a' adjustment, adjustPlatform c a policy samples = some (a', adjustment) ∧ Sized c a' ∧
      Remembered c a a' ∧ (a.useSstTf = true → ∀ i < c.controlCount,
        if i < (if a.handleNewEpoch then c.topo.corePerPackage else c.controlCount) then
          ∃ frequency lpFrequency, adjustment.immediate[i]? = some frequency ∧
            a'.frequencyLimitDetector.coreLpFrequencies[i]? = some lpFrequency ∧
            a'.sstClosGovernor.lastClos[i]? = some (closFor frequency lpFrequency)
        else a'.sstClosGovernor.lastClos[i]? = some .highPriority) := by
  obtain ⟨a₁, frequencyByCore, hepoch, hsized, hremembered, hsize, htf, hinit₁, hgovernor⟩ :=
    exists_handleEpochs h hinit hpackages heq samples
  obtain ⟨immediate, himmediate, hlength, hnumbers⟩ := hsized.immediateControls hpackages heq
  obtain ⟨request, hrequest⟩ : ∃ request, requestFrequency c a₁ immediate = some request := by
    rw [requestFrequency]
    split_ifs with huse hne
    · exact absurd hlength hne
    · exact ⟨_, rfl⟩
    · exact ⟨_, rfl⟩
  have hadjust : ∀ governor, assignClasses c a₁ immediate frequencyByCore = some governor →
      adjustPlatform c a policy samples =
        some ({ a₁ with sstClosGovernor := governor }, ⟨immediate, request⟩) := by
    intro governor hgovernor
    rw [adjustPlatform, if_neg (not_not.mpr hinit)]
    simp only [hepoch, himmediate, hgovernor, hrequest, Option.bind_eq_bind, Option.bind_some]
  cases huse : a.useSstTf with
  | false =>
    have hassign : assignClasses c a₁ immediate frequencyByCore = some a₁.sstClosGovernor :=
      if_neg (by rw [htf, huse]; exact Bool.false_ne_true)
    exact ⟨_, _, hadjust _ hassign, hsized, hremembered, nofun⟩
  | true =>
    have hn : frequencyByCore.length ≤ c.controlCount := by
      rw [hsize]
      split_ifs
      · exact Nat.le_mul_of_pos_left _ c.numPackage_pos
      · exact le_rfl
    obtain ⟨closByCore, hloop, hclos, hassigned, hother⟩ :=
      hsized.assignClos hlength hnumbers hn
    have henabled : a₁.sstClosGovernor.isEnabled = true := by
      rw [hsized.isEnabled, htf, huse, Bool.or_true]
    have hassign : assignClasses c a₁ immediate frequencyByCore =
        some { a₁.sstClosGovernor with
          doWriteBatch := decide (closByCore ≠ a₁.sstClosGovernor.lastClos)
          lastClos := closByCore } := by
      rw [assignClasses, if_pos (htf.trans huse), hloop, Option.bind_some,
        SSTClosGovernor.adjustPlatform, if_neg (not_not.mpr hclos), if_pos henabled]
    refine ⟨_, _, hadjust _ hassign, { hsized with }, hremembered, fun _ i hi => ?_⟩
    rw [← hsize]
    split_ifs with hlt
    · exact hassigned i hlt
    · exact hother i (not_lt.mp hlt) hi

theorem exists_initializePolicies (h : Sized c a) (hinit : a.isAdjustInitialized = false)
    (policy : Policy) (samples : LimitSamples) :
    ∃ a' adjustment, adjustPlatform c a policy samples = some (a', adjustment) ∧ Sized c a' ∧
      Remembered c a a' ∧ ∀ i < c.controlCount,
        adjustment.immediate[i]? = some (some c.frequencyMax) ∧
        a'.frequencyLimitDetector.coreLpFrequencies[i]? = some c.frequencySticker ∧
        a'.sstClosGovernor.lastClos[i]? = some .highPriority := by
  obtain ⟨hlast, hdetector⟩ := h.initial hinit
  have hclos : a.lastCtlClos.length = c.controlCount := by
    rw [h.lastCtlClos, length_replicate]
  have henabled : a.sstClosGovernor.isEnabled = true := by
    rw [h.isEnabled, hinit, Bool.not_false, Bool.true_or]
  have hadjust : a.sstClosGovernor.adjustPlatform c.controlCount a.lastCtlClos =
      some { a.sstClosGovernor with
        doWriteBatch := decide (a.lastCtlClos ≠ a.sstClosGovernor.lastClos)
        lastClos := a.lastCtlClos } := by
    rw [SSTClosGovernor.adjustPlatform, if_neg (not_not.mpr hclos), if_pos henabled]
  simp only [adjustPlatform, hinit, Bool.false_eq_true, not_false_eq_true, if_true,
    initializePolicies, hadjust, Option.bind_eq_bind, Option.bind_some]
  refine ⟨_, _, rfl, { h with isEnabled := rfl, initial := nofun }, ?_, fun i hi => ⟨?_, ?_, ?_⟩⟩
  · unfold Remembered
    rw [hinit, if_neg (by simp)]
  · simp only [hlast, getElem?_replicate, if_pos hi]
  · simp only [hdetector, SSTFrequencyLimitDetector.init, getElem?_replicate, if_pos hi]
  · simp only [h.lastCtlClos, getElem?_replicate, if_pos hi]

/-! ### Runs -/

/-- A call in which prioritized turbo is in use is right. -/
def RightCall (c : Constants) (a : Agent) : Call → Prop
  | .sample _ => True
  | .adjust policy samples => usesSstTf a policy = true → Right c a policy samples

/-- A call that is suitable. -/
def SuitableCall (c : Constants) (a : Agent) : Call → Prop
  | .sample _ => True
  | .adjust policy _ => Suitable c a policy

/-- A suitable call is right, and keeps the sizes. -/
theorem right_of_suitable {p : Platform} (hconstruct : p.construct = .ok c)
    (hnested : PlatformTopoImp.isNestedDomain c.freqDomain .core = true) (h : Sized c a)
    {call : Call} (hcall : SuitableCall c a call) :
    RightCall c a call ∧ Sized c (next c a call) := by
  have hpackages : IsPackages c.topo c.coresInPackages :=
    isPackages c.threadPerCore_pos c.corePerPackage_pos (construct_eq_ok hconstruct).2.2
  cases call with
  | sample samples =>
    refine ⟨trivial, ?_⟩
    change Sized c ((samplePlatform c a samples).getD a)
    cases ha' : samplePlatform c a samples with
    | none => exact h
    | some a' => exact h.samplePlatform ha'
  | adjust policy samples =>
    change Suitable c a policy at hcall
    change (usesSstTf a policy = true → Right c a policy samples) ∧
      Sized c (((adjustPlatform c a policy samples).map Prod.fst).getD a)
    unfold Suitable at hcall
    unfold usesSstTf
    cases hinit : a.isAdjustInitialized with
    | false =>
      rw [hinit] at hcall
      obtain ⟨a', adjustment, hadjust, hsized, hremembered, hall⟩ :=
        exists_initializePolicies h hinit policy samples
      rw [hadjust]
      refine ⟨fun huse => ⟨a', adjustment, hadjust, fun cores hcores i hi => ?_, hremembered⟩,
        hsized⟩
      have hlt : c.frequencySticker < c.frequencyMax := hcall (of_decide_eq_true huse)
      obtain ⟨hf, hlp, hclos⟩ := hall i (hpackages.lt hcores hi)
      refine ⟨_, _, hf, hlp, hclos.trans ?_⟩
      rw [closFor, if_neg (by simpa [Value.le] using hlt)]
    | true =>
      rw [hinit] at hcall
      obtain ⟨hcount, hsingle⟩ := hcall
      have heq := packageCoreIndices_eq hconstruct hnested hcount
      obtain ⟨a', adjustment, hadjust, hsized, hremembered, hall⟩ :=
        exists_adjustPlatform h hinit hpackages heq policy samples
      rw [hadjust]
      refine ⟨fun huse => ⟨a', adjustment, hadjust, fun cores hcores i hi => ?_, hremembered⟩,
        hsized⟩
      have hi' := hpackages.lt hcores hi
      have hassigned := hall huse i hi'
      rw [if_pos] at hassigned
      · exact hassigned
      split_ifs with hnew
      · -- there is only one package
        rwa [Platform.controlCount, PlatformTopoImp.numDomain, hsingle huse hnew, Nat.one_mul]
          at hi'
      · exact hi'

/-- In every run of suitable calls, each call that uses prioritized turbo stays in range, gives each
core of every package the class that its frequency calls for, and remembers for it what the balancer
of its own package computes. -/
theorem along_right {p : Platform} (hconstruct : p.construct = .ok c)
    (hinit : initPlatformIo c = .ok a) {calls : List Call}
    (hcalls : Lts.Along (SuitableCall c) (next c) a calls) :
    Lts.Along (RightCall c) (next c) a calls := by
  have hnested : PlatformTopoImp.isNestedDomain c.freqDomain .core = true := by
    rw [initPlatformIo] at hinit
    split_ifs at hinit with hnested
    exact hnested
  have hsized := sized_initPlatformIo hinit
  clear hinit
  induction calls generalizing a with
  | nil => trivial
  | cons call calls ih =>
    obtain ⟨hcall, hrest⟩ := hcalls
    obtain ⟨hright, hsized'⟩ := right_of_suitable hconstruct hnested hsized hcall
    exact ⟨hright, ih hrest hsized'⟩

end Calls

/-- A platform with single-threaded cores and frequencies from one to four, of which two is expected
of cores of low priority. -/
def platform (numPackage corePerPackage : ℕ) (hpackage : 0 < numPackage)
    (hcore : 0 < corePerPackage) : Platform where
  topo := PlatformTopoImp.make numPackage corePerPackage 1 [] [] []
  freqDomain := .core
  frequencyMin := 1
  frequencyMax := 4
  frequencySticker := 2
  frequencyStep := 1
  allCoreTurboFrequency := some 3
  buckets := []
  lowPrioritySseFrequency := 2
  lowPriorityAvx2Frequency := 2
  lowPriorityAvx512Frequency := 2
  waiterPeriod := 1
  sortCores := fun n _ _ => List.finRange n
  numPackage_pos := hpackage
  corePerPackage_pos := hcore
  threadPerCore_pos := Nat.one_pos
  frequencyStep_ne_zero := one_ne_zero

/-- The first core is in an application region, and the others are in the network. -/
def sampleAt (epochCount : ℚ) : Samples where
  hash := fun i => if i = 0 then some 1 else none
  hint := fun i => if i = 0 then some 0 else some hintNetwork
  frequency := fun _ => some 2
  epochFrequency := fun _ => some 2
  networkTime := fun _ => some 0
  epochCount := some epochCount
  time := some epochCount

/-- What the detector samples when there are no classes yet. -/
def limitSamples : LimitSamples := ⟨fun _ => some 1, fun _ => some 0, fun _ => some 4⟩

/-- The agent starts, sees three epochs, and handles them. -/
def threeEpochs : List Call :=
  [.adjust ⟨some 1, some 1⟩ limitSamples, .sample (sampleAt 0), .sample (sampleAt 3),
    .adjust ⟨some 1, some 1⟩ limitSamples]

/-- The constants of a platform with two cores in one package. -/
def onePackage : Constants :=
  { platform 1 2 (by decide) (by decide) with
    packageCoreIndices := [[0, 1]]
    coresInPackages := [[0, 1]] }

theorem along_right_onePackage : ∃ a, initPlatformIo onePackage = .ok a ∧
    Lts.Along (RightCall onePackage) (next onePackage) a threeEpochs := by
  refine ⟨_, rfl, along_right (p := platform 1 2 (by decide) (by decide)) (by rfl) rfl
    (Lts.along_of_forall fun a call _ => ?_)⟩
  cases call with
  | sample => trivial
  | adjust policy =>
    change Suitable onePackage a policy
    rw [Suitable]
    split_ifs
    · exact ⟨rfl, fun _ _ => rfl⟩
    · exact fun _ => by decide +kernel

/-- The constants of a platform with two packages of one core. -/
def twoPackages : Constants :=
  { platform 2 1 (by decide) (by decide) with
    packageCoreIndices := [[0], [1]]
    coresInPackages := [[0], [1]] }

/-- With two packages, the core of the second one keeps high priority when epochs are handled,
although it waits at a frequency that is expected of cores of low priority. -/
theorem not_along_classes : (platform 2 1 (by decide) (by decide)).construct = .ok twoPackages ∧
    ∃ a, initPlatformIo twoPackages = .ok a ∧
      ¬ Lts.Along (RightCall twoPackages) (next twoPackages) a threeEpochs := by
  refine ⟨by rfl, _, rfl, fun hrun => ?_⟩
  obtain ⟨-, -, -, hright, -⟩ := hrun
  obtain ⟨a', adjustment, hadjust, hassigned, -⟩ := hright (by decide +kernel)
  obtain ⟨frequency, lpFrequency, hf, hlp, hclos⟩ := hassigned [1] (by decide) 1 (by decide)
  have hvalues := congrArg (Option.map fun x : Agent × Adjustment => (x.2.immediate[1]?,
    x.1.frequencyLimitDetector.coreLpFrequencies[1]?, x.1.sstClosGovernor.lastClos[1]?)) hadjust
  rw [Option.map_some, hf, hlp, hclos] at hvalues
  have hcomputed := hvalues.symm.trans
    (by decide +kernel : _ = some (some (some (2 : ℚ)), some (2 : ℚ), some ClosLevel.highPriority))
  obtain ⟨h₁, h₂, h₃⟩ : frequency = some 2 ∧ lpFrequency = 2 ∧
      closFor frequency lpFrequency = .highPriority := by simpa using hcomputed
  rw [h₁, h₂] at h₃
  exact absurd h₃ (by decide +kernel)

end Geopm.FrequencyBalancerAgent
