import Geopm.Exception
import Geopm.Lib.Partition

/-!
# `LevelZeroGPUTopo`

The constructor splits the CPUs between the GPUs, and the CPUs of a GPU between its chips.

* `LevelZeroGPUTopo.make` : the constructor, with its two passes;
* `LevelZeroGPUTopo.Filled` : what has been assigned after some CPUs; `make_filled` : all of them
  are;
* `LevelZeroGPUTopo.Split` : the CPUs are split between the GPUs and between the chips;
* `LevelZeroGPUTopo.split_of_make` : they are, when every chip can have a CPU.
-/

namespace Geopm.Pio

open Nat

/-- The members of `LevelZeroGPUTopo`. -/
structure LevelZeroGPUTopo where
  cpuAffinityIdeal : List (Finset ℕ) := []
  cpuAffinityIdealChip : List (Finset ℕ) := []

/-- `insert` into the set that `vector::at` returns. -/
def insertAt (sets : List (Finset ℕ)) (idx cpuIdx : ℕ) : Except Exception (List (Finset ℕ)) :=
  if idx < sets.length then .ok (sets.modify idx (insert cpuIdx))
  else .error ⟨"vector::at", [], .runtime⟩

namespace LevelZeroGPUTopo

/-- A CPU is inserted into the set of a GPU and into that of a chip. -/
def assign (gpuIdx chipIdx cpuIdx : ℕ) (t : LevelZeroGPUTopo) :
    Except Exception LevelZeroGPUTopo := do
  let cpuAffinityIdeal ← insertAt t.cpuAffinityIdeal gpuIdx cpuIdx
  let cpuAffinityIdealChip ← insertAt t.cpuAffinityIdealChip chipIdx cpuIdx
  pure ⟨cpuAffinityIdeal, cpuAffinityIdealChip⟩

/-- The loop over the CPUs of a GPU, of which `n` are left. -/
def assignGpu (numChipPerGpu gpuIdx : ℕ) :
    (n cpuIdx chipIdx : ℕ) → LevelZeroGPUTopo → Except Exception LevelZeroGPUTopo
  | 0, _, _, t => .ok t
  | n + 1, cpuIdx, chipIdx, t => do
    let gpuChipIndex := gpuIdx * numChipPerGpu
    let t ← assign gpuIdx (gpuChipIndex + chipIdx % numChipPerGpu) cpuIdx t
    assignGpu numChipPerGpu gpuIdx n (cpuIdx + 1) (chipIdx + 1) t

/-- The loop over the GPUs, of which `n` are left. -/
def assignGpus (numCpuPerGpu numChipPerGpu : ℕ) :
    (n gpuIdx : ℕ) → LevelZeroGPUTopo → Except Exception LevelZeroGPUTopo
  | 0, _, t => .ok t
  | n + 1, gpuIdx, t => do
    let t ← assignGpu numChipPerGpu gpuIdx numCpuPerGpu (gpuIdx * numCpuPerGpu) 0 t
    assignGpus numCpuPerGpu numChipPerGpu n (gpuIdx + 1) t

/-- The loop over the CPUs that the split leaves, of which `n` are left. -/
def assignRest (numGpu numChipPerGpu : ℕ) :
    (n cpuIdx gpuIdx : ℕ) → LevelZeroGPUTopo → Except Exception LevelZeroGPUTopo
  | 0, _, _, t => .ok t
  | n + 1, cpuIdx, gpuIdx, t => do
    let t ← assign (gpuIdx % numGpu) (gpuIdx * numChipPerGpu) cpuIdx t
    assignRest numGpu numChipPerGpu n (cpuIdx + 1) (gpuIdx + 1) t

/-- The constructor; `zeAffinityMask` tells whether the environment variable is set. -/
def make (zeAffinityMask : Bool) (numGpu numGpuChip numCpu : ℕ) :
    Except Exception LevelZeroGPUTopo :=
  if zeAffinityMask then
    .error ⟨"LevelZeroGPUTopo: Refusing to create a topology cache file while ZE_AFFINITY_MASK " ++
      "environment variable is set", [], .runtime⟩
  else if numGpu = 0 ∨ numGpuChip = 0 then .ok {}
  else do
    let numCpuPerGpu := numCpu / numGpu
    let numChipPerGpu := numGpuChip / numGpu
    let t ← assignGpus numCpuPerGpu numChipPerGpu numGpu 0
      ⟨List.replicate numGpu ∅, List.replicate numGpuChip ∅⟩
    if numCpu % numGpu ≠ 0 then
      assignRest numGpu numChipPerGpu (numCpu - numCpuPerGpu * numGpu) (numCpuPerGpu * numGpu) 0 t
    else .ok t

/-! ### What is assigned -/

/-- The GPU that a CPU is assigned to. -/
def gpuOf (numGpu numCpuPerGpu cpuIdx : ℕ) : ℕ :=
  if cpuIdx < numGpu * numCpuPerGpu then cpuIdx / numCpuPerGpu else cpuIdx - numGpu * numCpuPerGpu

/-- The chip that a CPU is assigned to. -/
def chipOf (numGpu numCpuPerGpu numChipPerGpu cpuIdx : ℕ) : ℕ :=
  gpuOf numGpu numCpuPerGpu cpuIdx * numChipPerGpu +
    if cpuIdx < numGpu * numCpuPerGpu then cpuIdx % numCpuPerGpu % numChipPerGpu else 0

/-- The sets hold the CPUs before `m` that are mapped to their index. -/
structure Holds (sets : List (Finset ℕ)) (num : ℕ) (idxOf : ℕ → ℕ) (m : ℕ) : Prop where
  length_eq : sets.length = num
  mem_iff : ∀ i set, sets[i]? = some set → ∀ c, c ∈ set ↔ c < m ∧ idxOf c = i

theorem holds_replicate (num : ℕ) (idxOf : ℕ → ℕ) :
    Holds (List.replicate num ∅) num idxOf 0 where
  length_eq := List.length_replicate
  mem_iff i set hset c := by
    obtain rfl := List.eq_of_mem_replicate (List.mem_of_getElem? hset)
    simp

/-- One CPU more. -/
theorem Holds.insertAt {sets : List (Finset ℕ)} {num m : ℕ} {idxOf : ℕ → ℕ}
    (h : Holds sets num idxOf m) (hidx : idxOf m < num) :
    ∃ sets', insertAt sets (idxOf m) m = .ok sets' ∧ Holds sets' num idxOf (m + 1) := by
  unfold Pio.insertAt
  rw [if_pos (h.length_eq.symm ▸ hidx)]
  refine ⟨_, rfl, List.length_modify .. |>.trans h.length_eq, fun i set hset c => ?_⟩
  rw [List.getElem?_modify, Option.map_eq_map, Option.map_eq_some_iff] at hset
  obtain ⟨old, hold, rfl⟩ := hset
  have hmem := h.mem_iff i old hold c
  have hlast : c < m + 1 ↔ c < m ∨ c = m := by omega
  split_ifs with hi
  · subst hi
    rw [Finset.mem_insert, hmem, hlast]
    constructor
    · rintro (rfl | ⟨hlt, hc⟩)
      · exact ⟨.inr rfl, rfl⟩
      · exact ⟨.inl hlt, hc⟩
    · rintro ⟨hlt | rfl, hc⟩
      · exact .inr ⟨hlt, hc⟩
      · exact .inl rfl
  · rw [hmem, hlast]
    constructor
    · rintro ⟨hlt, hc⟩
      exact ⟨.inl hlt, hc⟩
    · rintro ⟨hlt | rfl, hc⟩
      · exact ⟨hlt, hc⟩
      · exact absurd hc hi

/-- The CPUs before `m` have been assigned. -/
structure Filled (t : LevelZeroGPUTopo) (numGpu numCpuPerGpu numChipPerGpu m : ℕ) : Prop where
  gpu : Holds t.cpuAffinityIdeal numGpu (gpuOf numGpu numCpuPerGpu) m
  chip : Holds t.cpuAffinityIdealChip (numChipPerGpu * numGpu)
    (chipOf numGpu numCpuPerGpu numChipPerGpu) m

section Filled

variable {t : LevelZeroGPUTopo} {g q k m : ℕ}

theorem gpuOf_lt (hm : m < g * q + g) : gpuOf g q m < g := by
  unfold gpuOf
  split_ifs with hlt
  · exact Nat.div_lt_of_lt_mul (Nat.mul_comm g q ▸ hlt)
  · omega

theorem chipOf_lt (hk : 0 < k) (hm : m < g * q + g) : chipOf g q k m < k * g := by
  have hgpu := gpuOf_lt hm
  have hchip : (if m < g * q then m % q % k else 0) < k := by
    split_ifs
    · exact mod_lt _ hk
    · exact hk
  calc chipOf g q k m < gpuOf g q m * k + k := Nat.add_lt_add_left hchip _
    _ = (gpuOf g q m + 1) * k := (succ_mul _ _).symm
    _ ≤ g * k := Nat.mul_le_mul_right _ hgpu
    _ = k * g := Nat.mul_comm _ _

/-- The next CPU is assigned. -/
theorem Filled.assign (h : t.Filled g q k m) (hk : 0 < k) (hm : m < g * q + g) {gpuIdx chipIdx : ℕ}
    (hgpu : gpuIdx = gpuOf g q m) (hchip : chipIdx = chipOf g q k m) :
    ∃ t', t.assign gpuIdx chipIdx m = .ok t' ∧ t'.Filled g q k (m + 1) := by
  subst hgpu hchip
  obtain ⟨gpu, hinsert, hgpu⟩ := h.gpu.insertAt (gpuOf_lt hm)
  obtain ⟨chip, hinsert', hchip⟩ := h.chip.insertAt (chipOf_lt hk hm)
  refine ⟨⟨gpu, chip⟩, ?_, hgpu, hchip⟩
  unfold LevelZeroGPUTopo.assign
  rw [hinsert, hinsert']
  rfl

theorem gpuOf_eq {gpuIdx x : ℕ} (hgpu : gpuIdx < g) (hx : x < q) :
    gpuOf g q (gpuIdx * q + x) = gpuIdx ∧
      chipOf g q k (gpuIdx * q + x) = gpuIdx * k + x % k := by
  have hlt : gpuIdx * q + x < g * q := by
    calc gpuIdx * q + x < gpuIdx * q + q := Nat.add_lt_add_left hx _
      _ = (gpuIdx + 1) * q := (succ_mul _ _).symm
      _ ≤ g * q := Nat.mul_le_mul_right _ hgpu
  have hdiv : gpuOf g q (gpuIdx * q + x) = gpuIdx := by
    unfold gpuOf
    rw [if_pos hlt, Nat.mul_comm, mul_add_div (by omega), div_eq_of_lt hx, Nat.add_zero]
  refine ⟨hdiv, ?_⟩
  unfold chipOf
  rw [hdiv, if_pos hlt, Nat.mul_comm gpuIdx q, mul_add_mod, mod_eq_of_lt hx]

theorem Filled.assignGpu {gpuIdx n x : ℕ} (h : t.Filled g q k (gpuIdx * q + x)) (hk : 0 < k)
    (hgpu : gpuIdx < g) (hn : x + n = q) :
    ∃ t', assignGpu k gpuIdx n (gpuIdx * q + x) x t = .ok t' ∧
      t'.Filled g q k ((gpuIdx + 1) * q) := by
  induction n generalizing t x with
  | zero =>
    obtain rfl : x = q := hn
    exact ⟨t, rfl, (succ_mul gpuIdx x).symm ▸ h⟩
  | succ n ih =>
    obtain ⟨hgpuOf, hchipOf⟩ := gpuOf_eq (k := k) hgpu (show x < q by omega)
    have hm : gpuIdx * q + x < g * q + g := by
      have hle : (gpuIdx + 1) * q ≤ g * q := Nat.mul_le_mul_right _ hgpu
      rw [succ_mul] at hle
      omega
    obtain ⟨t', hassign, hfilled⟩ := h.assign hk hm hgpuOf.symm hchipOf.symm
    obtain ⟨t'', hrest, hdone⟩ := ih (x := x + 1) hfilled (by omega)
    refine ⟨t'', ?_, hdone⟩
    rw [LevelZeroGPUTopo.assignGpu, hassign]
    exact hrest

theorem Filled.assignGpus {gpuIdx n : ℕ} (h : t.Filled g q k (gpuIdx * q)) (hk : 0 < k)
    (hn : gpuIdx + n = g) :
    ∃ t', assignGpus q k n gpuIdx t = .ok t' ∧ t'.Filled g q k (g * q) := by
  induction n generalizing t gpuIdx with
  | zero =>
    obtain rfl : gpuIdx = g := hn
    exact ⟨t, rfl, h⟩
  | succ n ih =>
    obtain ⟨t', hgpu, hfilled⟩ := Filled.assignGpu (x := 0) h hk (show gpuIdx < g by omega)
      (Nat.zero_add q)
    obtain ⟨t'', hrest, hdone⟩ := ih hfilled (by omega)
    refine ⟨t'', ?_, hdone⟩
    rw [LevelZeroGPUTopo.assignGpus]
    rw [Nat.add_zero] at hgpu
    rw [hgpu]
    exact hrest

theorem Filled.assignRest {gpuIdx n : ℕ} (h : t.Filled g q k (g * q + gpuIdx)) (hk : 0 < k)
    (hn : gpuIdx + n < g) :
    ∃ t', assignRest g k n (g * q + gpuIdx) gpuIdx t = .ok t' ∧
      t'.Filled g q k (g * q + (gpuIdx + n)) := by
  induction n generalizing t gpuIdx with
  | zero => exact ⟨t, rfl, h⟩
  | succ n ih =>
    have hge : ¬ g * q + gpuIdx < g * q := by omega
    have hgpuOf : gpuOf g q (g * q + gpuIdx) = gpuIdx := by
      rw [gpuOf, if_neg hge, Nat.add_sub_cancel_left]
    have hchipOf : chipOf g q k (g * q + gpuIdx) = gpuIdx * k := by
      rw [chipOf, if_neg hge, hgpuOf, Nat.add_zero]
    have hmod : gpuIdx % g = gpuIdx := mod_eq_of_lt (by omega)
    obtain ⟨t', hassign, hfilled⟩ := h.assign hk (by omega) (hmod.trans hgpuOf.symm) hchipOf.symm
    have hfilled : t'.Filled g q k (g * q + (gpuIdx + 1)) := hfilled
    obtain ⟨t'', hrest, hdone⟩ := ih hfilled (by omega)
    refine ⟨t'', ?_, ?_⟩
    · rw [LevelZeroGPUTopo.assignRest, hassign]
      exact hrest
    · rw [Nat.add_right_comm] at hdone
      exact hdone

theorem make_filled (hg : 0 < g) (hk : 0 < k) (numCpu : ℕ) :
    ∃ t, make false g (k * g) numCpu = .ok t ∧ t.Filled g (numCpu / g) k numCpu := by
  have hempty : Filled ⟨List.replicate g ∅, List.replicate (k * g) ∅⟩ g (numCpu / g) k
      (0 * (numCpu / g)) := by
    rw [Nat.zero_mul]
    exact ⟨holds_replicate _ _, holds_replicate _ _⟩
  have hchips : k * g / g = k := Nat.mul_div_cancel k hg
  obtain ⟨t, hgpus, hfilled⟩ := hempty.assignGpus hk (Nat.zero_add g)
  have hdiv := div_add_mod numCpu g
  unfold make
  rw [if_neg Bool.false_ne_true, if_neg (not_or.mpr ⟨hg.ne', (Nat.mul_pos hk hg).ne'⟩), hchips]
  dsimp only
  rw [hgpus]
  change ∃ t', (if numCpu % g ≠ 0 then _ else Except.ok t) = _ ∧ _
  split_ifs with hrest
  · have hlt := mod_lt numCpu hg
    have hfilled : t.Filled g (numCpu / g) k (g * (numCpu / g) + 0) := hfilled
    obtain ⟨t', hassign, hdone⟩ := hfilled.assignRest (n := numCpu % g) hk (by omega)
    refine ⟨t', ?_, ?_⟩
    · rw [Nat.mul_comm (numCpu / g)]
      have hleft : numCpu - g * (numCpu / g) = numCpu % g := by omega
      rw [hleft]
      exact hassign
    · rw [Nat.zero_add, hdiv] at hdone
      exact hdone
  · refine ⟨t, rfl, ?_⟩
    have hall : g * (numCpu / g) = numCpu := by omega
    rw [hall] at hfilled
    exact hfilled

end Filled

/-! ### The split -/

/-- The CPUs at an index. -/
def cpusAt (sets : List (Finset ℕ)) (i : ℕ) : Finset ℕ := sets[i]?.getD ∅

open Partition

/-- The CPUs are split between the GPUs and between the chips: those of a GPU are those of its
chips, and the GPUs have equally many, but for one. -/
structure Split (t : LevelZeroGPUTopo) (numGpu numChipPerGpu numCpu : ℕ) : Prop where
  gpu : IsPartition (Set.Iio numGpu) (fun i => (cpusAt t.cpuAffinityIdeal i : Set ℕ))
    (Set.Iio numCpu)
  chip : IsPartition (Set.Iio (numChipPerGpu * numGpu))
    (fun i => (cpusAt t.cpuAffinityIdealChip i : Set ℕ)) (Set.Iio numCpu)
  nested : ∀ i < numGpu,
    ⋃ j ∈ Set.Ico (i * numChipPerGpu) (i * numChipPerGpu + numChipPerGpu),
      (cpusAt t.cpuAffinityIdealChip j : Set ℕ) = cpusAt t.cpuAffinityIdeal i
  balanced : ∀ i < numGpu, ∀ j < numGpu,
    (cpusAt t.cpuAffinityIdeal i).card ≤ (cpusAt t.cpuAffinityIdeal j).card + 1

section Split

variable {t : LevelZeroGPUTopo} {g q k n : ℕ}

theorem Holds.mem_cpusAt {sets : List (Finset ℕ)} {num m i c : ℕ} {idxOf : ℕ → ℕ}
    (h : Holds sets num idxOf m) (hi : i < num) : c ∈ cpusAt sets i ↔ c < m ∧ idxOf c = i := by
  have hlt : i < sets.length := h.length_eq.symm ▸ hi
  rw [cpusAt, List.getElem?_eq_getElem hlt, Option.getD_some]
  exact h.mem_iff i _ (List.getElem?_eq_getElem hlt) c

theorem lt_of_div (hn : n / g = q) (hg : 0 < g) : n < g * q + g ∧ g * q ≤ n := by
  have hdiv := div_add_mod n g
  have hmod := mod_lt n hg
  rw [hn] at hdiv
  omega

/-- Every GPU and every chip has a CPU. -/
theorem exists_chipOf (hn : n / g = q) (hkq : k ≤ q) {i x : ℕ} (hi : i < g) (hx : x < k) :
    ∃ c < n, gpuOf g q c = i ∧ chipOf g q k c = i * k + x := by
  obtain ⟨hgpu, hchip⟩ := gpuOf_eq (k := k) hi (show x < q by omega)
  refine ⟨i * q + x, ?_, hgpu, ?_⟩
  · have hle : (i + 1) * q ≤ g * q := Nat.mul_le_mul_right _ hi
    rw [succ_mul] at hle
    have hbound := lt_of_div hn (by omega)
    omega
  · rw [hchip, mod_eq_of_lt hx]

theorem chipOf_div (hk : 0 < k) (c : ℕ) : chipOf g q k c / k = gpuOf g q c := by
  unfold chipOf
  rw [Nat.mul_comm, mul_add_div hk]
  split_ifs with hlt
  · rw [div_eq_of_lt (mod_lt _ hk), Nat.add_zero]
  · rw [Nat.zero_div, Nat.add_zero]

theorem card_gpu (h : Holds t.cpuAffinityIdeal g (gpuOf g q) n) (hn : n / g = q) (hq : 0 < q)
    {i : ℕ} (hi : i < g) :
    q ≤ (cpusAt t.cpuAffinityIdeal i).card ∧ (cpusAt t.cpuAffinityIdeal i).card ≤ q + 1 := by
  have hbound := lt_of_div hn (by omega)
  have hle : (i + 1) * q ≤ g * q := Nat.mul_le_mul_right _ hi
  rw [succ_mul] at hle
  have hshare : (Finset.Ico (i * q) (i * q + q)).card = q := by
    rw [card_Ico, Nat.add_sub_cancel_left]
  constructor
  · calc q = (Finset.Ico (i * q) (i * q + q)).card := hshare.symm
      _ ≤ (cpusAt t.cpuAffinityIdeal i).card := Finset.card_le_card fun c hc => by
        rw [Finset.mem_Ico] at hc
        rw [h.mem_cpusAt hi]
        obtain ⟨x, rfl⟩ := Nat.exists_eq_add_of_le hc.1
        exact ⟨by omega, (gpuOf_eq (k := 1) hi (by omega)).1⟩
  · calc (cpusAt t.cpuAffinityIdeal i).card
        ≤ (insert (g * q + i) (Finset.Ico (i * q) (i * q + q))).card :=
          Finset.card_le_card fun c hc => by
            rw [h.mem_cpusAt hi] at hc
            obtain ⟨hlt, hgpu⟩ := hc
            rw [Finset.mem_insert, Finset.mem_Ico]
            unfold gpuOf at hgpu
            split_ifs at hgpu with hsplit
            · -- the share of the GPU
              have hdiv := div_add_mod c q
              have hmod := mod_lt c hq
              rw [hgpu, Nat.mul_comm] at hdiv
              exact .inr ⟨by omega, by omega⟩
            · exact .inl (by omega)
      _ ≤ (Finset.Ico (i * q) (i * q + q)).card + 1 := Finset.card_insert_le _ _
      _ = q + 1 := by rw [hshare]

/-- **The constructor splits the CPUs**, when there are as many as there are chips. -/
theorem split_of_make {g k n : ℕ} (hg : 1 ≤ g) (hk : 1 ≤ k) (hn : k * g ≤ n) :
    ∃ t, make false g (k * g) n = .ok t ∧ t.Split g k n := by
  obtain ⟨t, hmake, hgpu, hchip⟩ := make_filled hg hk n
  have hkq : k ≤ n / g := (Nat.le_div_iff_mul_le hg).mpr hn
  have hbound := lt_of_div (n := n) (g := g) rfl hg
  have hchips : IsPartition (Set.Iio (k * g))
      (fun i => (cpusAt t.cpuAffinityIdealChip i : Set ℕ)) (Set.Iio n) := by
    refine .of_fibers (chipOf g (n / g) k) (fun i hi c => hchip.mem_cpusAt hi)
      (fun c hc => chipOf_lt hk (Nat.lt_trans hc hbound.1)) fun j hj => ?_
    have hdiv : j / k < g := Nat.div_lt_of_lt_mul hj
    obtain ⟨c, hc, -, hcj⟩ := exists_chipOf rfl hkq hdiv (mod_lt j hk)
    exact ⟨c, hc, by rw [hcj, Nat.mul_comm, div_add_mod]⟩
  refine ⟨t, hmake, ?_, hchips, fun i hi => ?_, fun i hi j hj => ?_⟩
  · refine .of_fibers (gpuOf g (n / g)) (fun i hi c => hgpu.mem_cpusAt hi)
      (fun c hc => gpuOf_lt (Nat.lt_trans hc hbound.1)) fun i hi => ?_
    obtain ⟨c, hc, hci, -⟩ := exists_chipOf rfl hkq hi hk
    exact ⟨c, hc, hci⟩
  · have hunion := (@IsPartition.of_coarser _ _ _ _ _ (fun i => (cpusAt t.cpuAffinityIdeal i : Set ℕ))
      _ hchips (· / k) i (fun j hj c hc => ?_) ?_).union
    · refine Eq.trans ?_ hunion
      refine Set.iUnion_congr fun j => Set.iUnion_congr_Prop ?_ fun _ => rfl
      show i * k ≤ j ∧ j < i * k + k ↔ j < k * g ∧ j / k = i
      rw [Nat.div_eq_iff hk]
      have hle : (i + 1) * k ≤ g * k := Nat.mul_le_mul_right _ hi
      rw [succ_mul, Nat.mul_comm g] at hle
      omega
    · have hcj := ((hchip.mem_cpusAt hj).mp hc)
      show c ∈ cpusAt t.cpuAffinityIdeal i ↔ _
      rw [hgpu.mem_cpusAt hi, ← hcj.2, chipOf_div hk]
      exact and_iff_right hcj.1
    · exact fun c hc => ((hgpu.mem_cpusAt hi).mp hc).1
  · have hi' := card_gpu hgpu rfl (by omega) hi
    have hj' := card_gpu hgpu rfl (by omega) hj
    omega

end Split

end LevelZeroGPUTopo

end Geopm.Pio
