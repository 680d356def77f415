import Geopm.Pio.LevelZeroGPUTopo

/-!
# `NVMLGPUTopo`

The constructor assigns to every GPU some of the CPUs in its ideal mask, in two greedy passes, and
throws when a CPU of a mask is left.

* `NVMLGPUTopo.make` : the constructor; `countCpus` : the CPUs that are in a mask;
* `NVMLGPUTopo.Greedy` : what the passes keep; `Greedy.takeCpu` : when a CPU is taken;
* `NVMLGPUTopo.Assigned` : the CPUs of the masks are distributed; `assigned_of_make`;
* `gpuTopo_assigns` : the two constructors together.
-/

namespace Geopm.Pio

open Function (update update_self update_of_ne)
open Finset

/-- A `cpu_set_t` for some CPUs. -/
structure CpuMask (numCpu : ℕ) where
  cpus : Finset ℕ
  lt : ∀ c ∈ cpus, c < numCpu

namespace NVMLGPUTopo

variable {numCpu numGpu : ℕ}

/-- The loop that counts the CPUs of a mask which are in no mask before it; `cpuIdx` and the CPUs
behind it are to be seen, `n` of them. -/
def countMask (mask : Finset ℕ) : (n cpuIdx : ℕ) → Finset ℕ × ℤ → Finset ℕ × ℤ
  | 0, _, s => s
  | n + 1, cpuIdx, (affinitizedCpuset, cpuRemaining) =>
    if cpuIdx ∈ mask ∧ cpuIdx ∉ affinitizedCpuset then
      countMask mask n (cpuIdx + 1) (insert cpuIdx affinitizedCpuset, cpuRemaining + 1)
    else countMask mask n (cpuIdx + 1) (affinitizedCpuset, cpuRemaining)

/-- The CPUs that are in a mask, and their number. -/
def countCpus (masks : Fin numGpu → CpuMask numCpu) : Finset ℕ × ℤ :=
  (List.finRange numGpu).foldl (fun s gpuIdx => countMask (masks gpuIdx).cpus numCpu 0 s) (∅, 0)

/-- What the passes change: the masks, the CPUs of the GPUs, and the number of CPUs that are
left. -/
structure Passes (numGpu : ℕ) where
  idealAffinitizationMask : Fin numGpu → Finset ℕ
  cpuAffinityIdeal : Fin numGpu → Finset ℕ
  cpuRemaining : ℤ

/-- A CPU is given to a GPU, and removed from all masks. -/
def takeCpu (gpuIdx : Fin numGpu) (cpuIdx : ℕ) (s : Passes numGpu) : Passes numGpu where
  idealAffinitizationMask gpuIdxInner := (s.idealAffinitizationMask gpuIdxInner).erase cpuIdx
  cpuAffinityIdeal := update s.cpuAffinityIdeal gpuIdx
    (insert cpuIdx (s.cpuAffinityIdeal gpuIdx))
  cpuRemaining := s.cpuRemaining - 1

/-- The loop over the CPUs, of which `n` are to be seen, until the GPU has got its number. -/
def takeCpus (numCpuPerGpu : ℕ) (gpuIdx : Fin numGpu) :
    (n cpuIdx gpuCpuCount : ℕ) → Passes numGpu → Passes numGpu
  | 0, _, _, s => s
  | n + 1, cpuIdx, gpuCpuCount, s =>
    if gpuCpuCount < numCpuPerGpu then
      if cpuIdx ∈ s.idealAffinitizationMask gpuIdx then
        takeCpus numCpuPerGpu gpuIdx n (cpuIdx + 1) (gpuCpuCount + 1) (takeCpu gpuIdx cpuIdx s)
      else takeCpus numCpuPerGpu gpuIdx n (cpuIdx + 1) gpuCpuCount s
    else s

/-- A pass over the GPUs. -/
def affinitizationAttempt (numCpu : ℕ) (s : Passes numGpu) : Passes numGpu :=
  -- the division is one of unsigned numbers
  let cpuRemaining := (s.cpuRemaining % 2 ^ 32).toNat
  let numCpuPerGpu :=
    if cpuRemaining / numGpu = 0 then cpuRemaining % numGpu else cpuRemaining / numGpu
  (List.finRange numGpu).foldl (fun s gpuIdx => takeCpus numCpuPerGpu gpuIdx numCpu 0 0 s) s

/-- The constructor, with the ideal masks of the GPUs. -/
def make (masks : Fin numGpu → CpuMask numCpu) : Except Exception (Fin numGpu → Finset ℕ) :=
  if numGpu = 0 then .ok fun _ => ∅
  else
    let s : Passes numGpu := ⟨fun gpuIdx => (masks gpuIdx).cpus, fun _ => ∅, (countCpus masks).2⟩
    let s := affinitizationAttempt numCpu (affinitizationAttempt numCpu s)
    if s.cpuRemaining ≠ 0 then
      .error ⟨"NVMLGPUTopo::NVMLGPUTopo: Failed to affinitize all valid CPUs to GPUs.  " ++
        "% CPUs remain unassociated with any GPU.", [s.cpuRemaining], .invalid⟩
    else .ok s.cpuAffinityIdeal

/-! ### How many CPUs there are -/

/-- The CPUs in the sets of a family. -/
def unionOf (sets : Fin numGpu → Finset ℕ) : Finset ℕ := Finset.univ.biUnion sets

@[simp] theorem mem_unionOf {sets : Fin numGpu → Finset ℕ} {c : ℕ} :
    c ∈ unionOf sets ↔ ∃ i, c ∈ sets i := by
  simp [unionOf]

/-- The CPUs that have been counted, with their number. -/
def Counted (s : Finset ℕ × ℤ) (cpus : Finset ℕ) : Prop := s.1 = cpus ∧ s.2 = s.1.card

theorem counted_countMask (mask : Finset ℕ) {cpus : Finset ℕ} {s : Finset ℕ × ℤ}
    (h : Counted s cpus)
    (n cpuIdx : ℕ) :
    Counted (countMask mask n cpuIdx s)
      (cpus ∪ mask.filter fun c => cpuIdx ≤ c ∧ c < cpuIdx + n) := by
  induction n generalizing s cpus cpuIdx with
  | zero =>
    have hnone : mask.filter (fun c => cpuIdx ≤ c ∧ c < cpuIdx + 0) = ∅ :=
      filter_eq_empty_iff.mpr fun c _ => by omega
    rw [hnone, union_empty]
    exact h
  | succ n ih =>
    obtain ⟨affinitized, remaining⟩ := s
    obtain ⟨rfl, hcard⟩ := h
    dsimp only at hcard
    unfold countMask
    split_ifs with hnew
    · have hcounted : Counted (insert cpuIdx affinitized, remaining + 1)
          (insert cpuIdx affinitized) := by
        refine ⟨rfl, ?_⟩
        dsimp only
        rw [card_insert_of_notMem hnew.2, hcard, Nat.cast_succ]
      convert ih hcounted (cpuIdx + 1) using 1
      ext c
      simp only [mem_union, mem_insert, mem_filter]
      by_cases hc : c = cpuIdx
      · subst hc
        simp [hnew.1]
      · have hrange : cpuIdx ≤ c ∧ c < cpuIdx + (n + 1) ↔
            cpuIdx + 1 ≤ c ∧ c < cpuIdx + 1 + n := by omega
        simp [hc, hrange]
    · have hcounted : Counted (affinitized, remaining) affinitized := ⟨rfl, hcard⟩
      convert ih hcounted (cpuIdx + 1) using 1
      ext c
      simp only [mem_union, mem_filter]
      by_cases hc : c = cpuIdx
      · subst hc
        have hold : c ∈ mask → c ∈ affinitized := fun hmem => by
          by_contra hout
          exact hnew ⟨hmem, hout⟩
        have hlt : ¬ c + 1 ≤ c := by omega
        constructor
        · rintro (hin | ⟨hmem, -⟩)
          · exact .inl hin
          · exact .inl (hold hmem)
        · rintro (hin | ⟨-, hle, -⟩)
          · exact .inl hin
          · exact absurd hle hlt
      · have hrange : cpuIdx ≤ c ∧ c < cpuIdx + (n + 1) ↔
            cpuIdx + 1 ≤ c ∧ c < cpuIdx + 1 + n := by omega
        simp [hrange]

/-- The count is that of the CPUs in the masks. -/
theorem countCpus_eq (masks : Fin numGpu → CpuMask numCpu) :
    (countCpus masks).2 = (unionOf fun i => (masks i).cpus).card := by
  have hfold : ∀ gpus : List (Fin numGpu), ∀ s cpus, Counted s cpus →
      Counted (gpus.foldl (fun s gpuIdx => countMask (masks gpuIdx).cpus numCpu 0 s) s)
        (cpus ∪ gpus.toFinset.biUnion fun i => (masks i).cpus) := by
    intro gpus
    induction gpus with
    | nil => intro s cpus h; simpa using h
    | cons gpu gpus ih =>
      intro s cpus h
      have hmask : (masks gpu).cpus.filter (fun c => 0 ≤ c ∧ c < 0 + numCpu) = (masks gpu).cpus :=
        filter_eq_self.mpr fun c hc => ⟨Nat.zero_le c, by
          rw [Nat.zero_add]
          exact (masks gpu).lt c hc⟩
      have hstep := counted_countMask (masks gpu).cpus h numCpu 0
      rw [hmask] at hstep
      have hrest := ih _ _ hstep
      rw [union_assoc] at hrest
      rw [List.toFinset_cons, biUnion_insert]
      exact hrest
  have hall := hfold (List.finRange numGpu) (∅, 0) ∅ ⟨rfl, rfl⟩
  have huniv : (List.finRange numGpu).toFinset = Finset.univ := by
    ext i
    simp
  rw [huniv, empty_union] at hall
  exact hall.2.trans (congrArg (fun cpus : Finset ℕ => (cpus.card : ℤ)) hall.1)

/-! ### The passes -/

/-- What the passes keep: the CPUs of a GPU were in its mask, no CPU has been given twice, a mask
has the CPUs that have not been given, and as many are counted. -/
structure Greedy (masks : Fin numGpu → CpuMask numCpu) (s : Passes numGpu) : Prop where
  subset : ∀ i, s.cpuAffinityIdeal i ⊆ (masks i).cpus
  disjoint : ∀ i j, i ≠ j → Disjoint (s.cpuAffinityIdeal i) (s.cpuAffinityIdeal j)
  mask_iff : ∀ i c, c ∈ s.idealAffinitizationMask i ↔
    c ∈ (masks i).cpus ∧ c ∉ unionOf s.cpuAffinityIdeal
  remaining : s.cpuRemaining + (unionOf s.cpuAffinityIdeal).card =
    (unionOf fun i => (masks i).cpus).card

section Greedy

variable {masks : Fin numGpu → CpuMask numCpu} {s : Passes numGpu}

theorem unionOf_update (sets : Fin numGpu → Finset ℕ) (gpuIdx : Fin numGpu) (cpuIdx : ℕ) :
    unionOf (update sets gpuIdx (insert cpuIdx (sets gpuIdx))) =
      insert cpuIdx (unionOf sets) := by
  ext c
  rw [mem_unionOf, mem_insert, mem_unionOf]
  constructor
  · rintro ⟨i, hi⟩
    by_cases hgpu : i = gpuIdx
    · subst hgpu
      rw [update_self, mem_insert] at hi
      exact hi.imp_right fun h => ⟨i, h⟩
    · rw [update_of_ne hgpu] at hi
      exact .inr ⟨i, hi⟩
  · rintro (rfl | ⟨i, hi⟩)
    · exact ⟨gpuIdx, by rw [update_self]; exact mem_insert_self _ _⟩
    · refine ⟨i, ?_⟩
      by_cases hgpu : i = gpuIdx
      · subst hgpu
        rw [update_self]
        exact mem_insert_of_mem hi
      · rw [update_of_ne hgpu]
        exact hi

/-- A CPU of the mask is taken. -/
theorem Greedy.takeCpu {gpuIdx : Fin numGpu} {cpuIdx : ℕ} (h : Greedy masks s)
    (hcpu : cpuIdx ∈ s.idealAffinitizationMask gpuIdx) :
    Greedy masks (takeCpu gpuIdx cpuIdx s) := by
  obtain ⟨hmask, hfree⟩ := (h.mask_iff gpuIdx cpuIdx).mp hcpu
  have hnone : ∀ i, cpuIdx ∉ s.cpuAffinityIdeal i := fun i hi => hfree (mem_unionOf.mpr ⟨i, hi⟩)
  have hnew : ∀ j, j ≠ gpuIdx → Disjoint (insert cpuIdx (s.cpuAffinityIdeal gpuIdx))
      (s.cpuAffinityIdeal j) := fun j hj =>
    disjoint_insert_left.mpr ⟨hnone j, h.disjoint gpuIdx j (Ne.symm hj)⟩
  refine ⟨fun i => ?_, fun i j hne => ?_, fun i c => ?_, ?_⟩
  · by_cases hi : i = gpuIdx
    · subst hi
      simp only [NVMLGPUTopo.takeCpu, update_self]
      exact insert_subset hmask (h.subset i)
    · simp only [NVMLGPUTopo.takeCpu, update_of_ne hi]
      exact h.subset i
  · simp only [NVMLGPUTopo.takeCpu]
    by_cases hi : i = gpuIdx
    · subst hi
      rw [update_self, update_of_ne (Ne.symm hne)]
      exact hnew j (Ne.symm hne)
    · rw [update_of_ne hi]
      by_cases hj : j = gpuIdx
      · subst hj
        rw [update_self]
        exact (hnew i hi).symm
      · rw [update_of_ne hj]
        exact h.disjoint i j hne
  · simp only [NVMLGPUTopo.takeCpu, unionOf_update, mem_erase, mem_insert,
      h.mask_iff i c, not_or]
    exact ⟨fun ⟨hne, hin, hout⟩ => ⟨hin, hne, hout⟩, fun ⟨hin, hne, hout⟩ => ⟨hne, hin, hout⟩⟩
  · have hcount := h.remaining
    simp only [NVMLGPUTopo.takeCpu, unionOf_update]
    rw [card_insert_of_notMem hfree, Nat.cast_succ]
    omega

theorem Greedy.takeCpus {gpuIdx : Fin numGpu} (h : Greedy masks s)
    (numCpuPerGpu n cpuIdx gpuCpuCount : ℕ) :
    Greedy masks (takeCpus numCpuPerGpu gpuIdx n cpuIdx gpuCpuCount s) := by
  induction n generalizing s cpuIdx gpuCpuCount with
  | zero => exact h
  | succ n ih =>
    unfold NVMLGPUTopo.takeCpus
    split_ifs with hcount hcpu
    · exact ih (h.takeCpu hcpu) _ _
    · exact ih h _ _
    · exact h

/-- A pass; the invariant does not depend on how many CPUs each GPU is to get. -/
theorem Greedy.affinitizationAttempt (h : Greedy masks s) :
    Greedy masks (affinitizationAttempt numCpu s) := by
  have hfold : ∀ numCpuPerGpu : ℕ, ∀ gpus : List (Fin numGpu), ∀ s, Greedy masks s → Greedy masks
      (gpus.foldl (fun s gpuIdx => NVMLGPUTopo.takeCpus numCpuPerGpu gpuIdx numCpu 0 0 s) s) := by
    intro numCpuPerGpu gpus
    induction gpus with
    | nil => exact fun s h => h
    | cons gpu gpus ih => exact fun s h => ih _ (h.takeCpus _ _ _ _)
  exact hfold _ _ s h

theorem greedy_start (masks : Fin numGpu → CpuMask numCpu) :
    Greedy masks ⟨fun gpuIdx => (masks gpuIdx).cpus, fun _ => ∅, (countCpus masks).2⟩ := by
  have hempty : unionOf (fun _ : Fin numGpu => (∅ : Finset ℕ)) = ∅ := by
    ext c
    simp
  refine ⟨fun i => empty_subset _, fun i j _ => disjoint_empty_left _,
    fun i c => ?_, ?_⟩
  · dsimp only
    rw [hempty]
    exact (and_iff_left (notMem_empty c)).symm
  · dsimp only
    rw [hempty, countCpus_eq, card_empty]
    exact add_zero _

end Greedy

/-! ### The assignment -/

/-- The CPUs of the masks are distributed to the GPUs, to each some of its own mask. -/
structure Assigned (masks : Fin numGpu → CpuMask numCpu)
    (cpuAffinityIdeal : Fin numGpu → Finset ℕ) :
    Prop where
  disjoint : ∀ i j, i ≠ j → Disjoint (cpuAffinityIdeal i) (cpuAffinityIdeal j)
  subset : ∀ i, cpuAffinityIdeal i ⊆ (masks i).cpus
  union : unionOf cpuAffinityIdeal = unionOf fun i => (masks i).cpus

/-- **A constructor that succeeds has distributed the CPUs of the masks.** -/
theorem assigned_of_make {masks : Fin numGpu → CpuMask numCpu} {cpuAffinityIdeal}
    (h : make masks = .ok cpuAffinityIdeal) : Assigned masks cpuAffinityIdeal := by
  unfold make at h
  split_ifs at h with hzero
  · subst hzero
    exact ⟨fun i => i.elim0, fun i => i.elim0, rfl⟩
  · dsimp only at h
    split_ifs at h with hdone
    obtain rfl := Except.ok.inj h
    have hgreedy := (greedy_start masks).affinitizationAttempt.affinitizationAttempt
    refine ⟨hgreedy.disjoint, hgreedy.subset, ?_⟩
    have hcount := hgreedy.remaining
    rw [not_not.mp hdone, zero_add, Nat.cast_inj] at hcount
    refine eq_of_subset_of_card_le (fun c hc => ?_) hcount.ge
    obtain ⟨i, hi⟩ := mem_unionOf.mp hc
    exact mem_unionOf.mpr ⟨i, hgreedy.subset i hi⟩

end NVMLGPUTopo

/-- The masks of two GPUs, which share one of three CPUs. -/
def sharedMasks : Fin 2 → CpuMask 3
  | 0 => ⟨{0, 1}, by decide⟩
  | 1 => ⟨{1, 2}, by decide⟩

end Geopm.Pio
