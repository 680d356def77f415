import Geopm.Lib.Dealing
import Geopm.Lib.Fallible
import Geopm.Lib.HexText
import Geopm.Lib.SortedMap
import Geopm.Pio.PlatformTopo

/-!
# `DrmGpuTopo`

The GPUs are the cards of the directory of the DRM subsystem, in the order of their names.  The CPUs of
a card are those of its NUMA node, and its chips get every so many of them.

* `linuxCpumaskBufToIntSet` : the parser of a mask; `mem_linuxCpumaskBufToIntSet` : it finds the
  bits that are set;
* `DrmGpuTopo.make`, `DrmGpuTopo.cpuAffinityIdeal` : the constructor, and the CPUs of a GPU or a chip;
* `DrmGpuTopo.Placed` : cards that share a NUMA node have the same mask, and others disjoint ones;
* `DrmGpuTopo.Shares` : the chips of each node share out its CPUs;
* `DrmGpuTopo.shares_iff` : they do in terms of the numbers of the chips.
-/

namespace Geopm.Pio

open HexText Text
open List
open Nat

/-- What the constructor and the queries raise. -/
inductive DrmFailure
  | exception (e : Exception)
  /-- An exception of the standard library. -/
  | standard (what : String)
  | divisionByZero
  deriving DecidableEq

/-! ### The parser of a mask -/

/-- `MAX_CPUS_PER_CPUMASK_SEGMENT`. -/
def maxCpusPerCpumaskSegment : ℕ := 32

/-- The loop over the bits of a segment, of which `n` are left. -/
def insertBits : (n bitmaskSegment cpuOffset : ℕ) → Finset ℕ → Finset ℕ
  | 0, _, _, mappedCpus => mappedCpus
  | n + 1, bitmaskSegment, cpuOffset, mappedCpus =>
    insertBits n (bitmaskSegment >>> 1) (cpuOffset + 1)
      (if bitmaskSegment % 2 = 1 then insert cpuOffset mappedCpus else mappedCpus)

/-- The loop over the segments, the last one of the text first. -/
def insertSegments (cpumaskBuf : List Char) :
    List (List Char) → ℕ → Finset ℕ → Except DrmFailure (Finset ℕ)
  | [], _, mappedCpus => .ok mappedCpus
  | segment :: segments, cpuOffset, mappedCpus =>
    match stoull segment with
    | none => .error (.standard "stoull")
    | some bitmaskSegment =>
      if bitmaskSegment >>> maxCpusPerCpumaskSegment ≠ 0 then
        .error (.exception ⟨"linux_cpumask_buf_to_int_set: malformed cpumask: " ++
          String.ofList cpumaskBuf, [], .runtime⟩)
      else
        insertSegments cpumaskBuf segments (cpuOffset + maxCpusPerCpumaskSegment)
          (insertBits maxCpusPerCpumaskSegment bitmaskSegment cpuOffset mappedCpus)

def linuxCpumaskBufToIntSet (cpumaskBuf : List Char) : Except DrmFailure (Finset ℕ) :=
  insertSegments cpumaskBuf (split ',' cpumaskBuf).reverse 0 ∅

section Parser

variable {n bitmaskSegment cpuOffset x : ℕ} {mappedCpus : Finset ℕ} {segments : List (List Char)}

theorem mem_insertBits :
    x ∈ insertBits n bitmaskSegment cpuOffset mappedCpus ↔
      x ∈ mappedCpus ∨ ∃ i < n, x = cpuOffset + i ∧ bitmaskSegment.testBit i = true := by
  induction n generalizing bitmaskSegment cpuOffset mappedCpus with
  | zero => simp [insertBits]
  | succ n ih =>
    have hfirst : x ∈ (if bitmaskSegment % 2 = 1 then insert cpuOffset mappedCpus else mappedCpus) ↔
        x ∈ mappedCpus ∨ x = cpuOffset ∧ bitmaskSegment.testBit 0 = true := by
      rw [testBit_zero, decide_eq_true_eq]
      split_ifs with h <;> simp [h, or_comm]
    rw [insertBits, ih, hfirst, or_assoc]
    refine or_congr_right ⟨?_, ?_⟩
    · rintro (⟨rfl, hbit⟩ | ⟨i, hi, rfl, hbit⟩)
      · exact ⟨0, n.succ_pos, rfl, hbit⟩
      · refine ⟨i + 1, by omega, by omega, ?_⟩
        rwa [testBit_shiftRight, Nat.add_comm] at hbit
    · rintro ⟨i, hi, rfl, hbit⟩
      cases i with
      | zero => exact .inl ⟨rfl, hbit⟩
      | succ i =>
        refine .inr ⟨i, by omega, by omega, ?_⟩
        rwa [testBit_shiftRight, Nat.add_comm]

/-- The number that segments make, the lowest one first. -/
def segmentsValue : List (List Char) → ℕ
  | [] => 0
  | segment :: segments => 2 ^ 32 * segmentsValue segments + groupValue segment

variable (cpuOffset mappedCpus) in
theorem insertSegments_ok (cpumaskBuf : List Char) (h : ∀ segment ∈ segments, IsGroup segment) :
    ∃ cpus, insertSegments cpumaskBuf segments cpuOffset mappedCpus = .ok cpus ∧
      ∀ x, x ∈ cpus ↔ x ∈ mappedCpus ∨
        ∃ i, x = cpuOffset + i ∧ (segmentsValue segments).testBit i = true := by
  induction segments generalizing cpuOffset mappedCpus with
  | nil => exact ⟨mappedCpus, rfl, fun x => by simp [segmentsValue]⟩
  | cons segment segments ih =>
    have hgroup := h segment mem_cons_self
    have hlt := groupValue_lt hgroup
    obtain ⟨cpus, hcpus, hmem⟩ := ih (cpuOffset + maxCpusPerCpumaskSegment)
      (insertBits maxCpusPerCpumaskSegment (groupValue segment) cpuOffset mappedCpus)
      fun s hs => h s (mem_cons_of_mem _ hs)
    refine ⟨cpus, ?_, fun x => ?_⟩
    · rw [insertSegments, stoull_of_isGroup hgroup]
      dsimp only
      rw [if_neg, hcpus]
      rw [not_not, maxCpusPerCpumaskSegment, shiftRight_eq_div_pow, div_eq_of_lt hlt]
    · rw [hmem, mem_insertBits, or_assoc]
      refine or_congr_right ⟨?_, ?_⟩
      · rintro (⟨i, hi, rfl, hbit⟩ | ⟨i, rfl, hbit⟩)
        · refine ⟨i, rfl, ?_⟩
          rw [segmentsValue, testBit_two_pow_mul_add _ hlt, if_pos (show i < 32 from hi)]
          exact hbit
        · refine ⟨maxCpusPerCpumaskSegment + i, by omega, ?_⟩
          rw [segmentsValue, testBit_two_pow_mul_add _ hlt, maxCpusPerCpumaskSegment,
            if_neg (by omega), Nat.add_sub_cancel_left]
          exact hbit
      · rintro ⟨i, rfl, hbit⟩
        rw [segmentsValue, testBit_two_pow_mul_add _ hlt] at hbit
        split_ifs at hbit with hi
        · exact .inl ⟨i, hi, rfl, hbit⟩
        · exact .inr ⟨i - 32, by rw [maxCpusPerCpumaskSegment]; omega, hbit⟩

/-- The number that a text of segments stands for, the highest one first. -/
def maskValue (segments : List (List Char)) : ℕ := segmentsValue segments.reverse

/-- **The parser finds the bits that are set.** -/
theorem mem_linuxCpumaskBufToIntSet (h : ∀ segment ∈ segments, IsGroup segment) :
    ∃ cpus, linuxCpumaskBufToIntSet ([','].intercalate segments) = .ok cpus ∧
      ∀ x, x ∈ cpus ↔ (maskValue segments).testBit x = true := by
  have hsplit : split ',' ([','].intercalate segments) = segments := by
    cases segments with
    | nil => rfl
    | cons segment segments =>
      refine split_intercalate (fun s hs => not_mem_of_isGroup (h s hs)) (cons_ne_nil _ _) ?_
      intro hnil
      have hempty := h segment mem_cons_self
      rw [(List.cons.inj hnil).1] at hempty
      exact hempty.1 rfl
  obtain ⟨cpus, hcpus, hmem⟩ := insertSegments_ok 0 ∅
    ([','].intercalate segments) fun s hs => h s (mem_reverse.mp hs)
  refine ⟨cpus, ?_, fun x => ?_⟩
  · rw [linuxCpumaskBufToIntSet, hsplit, hcpus]
  · rw [hmem, maskValue]
    simp

end Parser

/-! ### The directory -/

/-- A file of the directory of a card, and what is listed in its `engines`, if that is a directory. -/
structure Tile where
  name : List Char
  engines : Option (List (List Char)) := none
  deriving DecidableEq

/-- A file of the DRM directory: the target of `device/driver`, the files in `gt` and in
`device/tile0`, and the texts of `device/local_cpus` and `device/numa_node`. -/
structure Card where
  name : List Char
  driver : Option (List Char) := none
  gt : List Tile := []
  tile0 : List Tile := []
  localCpus : Option (List Char) := none
  numaNode : Option (List Char) := none
  deriving DecidableEq

/-- `GPU_CARD_REGEX` and `GPU_TILE_REGEX`: a stem and digits. -/
def regexMatch (stem name : List Char) : Bool :=
  stem.isPrefixOf name && name.drop stem.length ≠ [] && (name.drop stem.length).all Char.isDigit

/-- `get_file_paths_with_pattern`, for a directory that can be listed. -/
def getFilePathsWithPattern {α : Type} (stem : List Char) (name : α → List Char) (files : List α) :
    List α :=
  files.filter fun file => regexMatch stem (name file)

/-- `std::sort`, by the paths. -/
def sortByName {α : Type} (name : α → List Char) (files : List α) : List α :=
  files.insertionSort fun x y => name x ≤ name y

def gtPathHasCcsEngine (tile : Tile) : Bool :=
  match tile.engines with
  | none => false
  | some entries => entries.any fun entry => ['c', 'c', 's'].isPrefixOf entry

/-- `drm_driver_name_from_card_path`: what follows the last `/`. -/
def drmDriverNameFromCardPath (card : Card) : Except DrmFailure (List Char) :=
  match card.driver with
  | none => .error (.exception ⟨"read_symlink_target(): failed to lstat ", [], .runtime⟩)
  | some driverPath => .ok (driverPath.reverse.takeWhile (· ≠ '/')).reverse

def driverPriority : List (List Char) := [['x', 'e'], ['i', '9', '1', '5']]

/-- The order of the drivers: more cards, then the priority, then the name. -/
def driverLess (lhs rhs : List Char × List Card) : Bool :=
  if lhs.2.length < rhs.2.length then true
  else if rhs.2.length < lhs.2.length then false
  else if driverPriority.idxOf rhs.1 < driverPriority.idxOf lhs.1 then true
  else if driverPriority.idxOf lhs.1 < driverPriority.idxOf rhs.1 then false
  else decide (lhs.1 < rhs.1)

def driverCardPaths (allCards : List Card) : Except DrmFailure (List (List Char × List Card)) :=
  allCards.foldlM (fun map card => do
    let driverName ← drmDriverNameFromCardPath card
    pure (SortedMap.assign driverName ((map.lookup driverName).getD [] ++ [card]) map)) []

def getCardsFromMostFrequentDriver (allCards : List Card) :
    Except DrmFailure (List Char × List Card) := do
  match ← driverCardPaths allCards with
  | [] => .error (.standard "get_cards_from_most_frequent_driver: No max-count is defined for driver card paths")
  | first :: rest => pure (rest.foldl (fun best it => if driverLess best it then it else best) first)

/-- The tiles of a card: those with compute engines, if there are any. -/
def tilesInCard (card : Card) : List Tile :=
  let inGt := getFilePathsWithPattern ['g', 't'] Tile.name card.gt
  let tiles :=
    if inGt = [] then getFilePathsWithPattern ['g', 't'] Tile.name card.tile0 else inGt
  let computeTiles := tiles.filter gtPathHasCcsEngine
  sortByName Tile.name (if computeTiles ≠ [] then computeTiles else tiles)

/-- The members of `DrmGpuTopo` that the queries use; a path of a card is the card. -/
structure DrmGpuTopo where
  driverName : List Char
  cards : List Card
  gpuByGpuChip : List ℕ
  cpuAffinityByGpu : List (Finset ℕ)
  numNuma : ℕ
  deriving DecidableEq

namespace DrmGpuTopo

/-- The loop over the cards that numbers the chips, from the GPU `gpuIdx`. -/
def numberChips : List Card → (gpuIdx : ℕ) → (tilesPerCard : Option ℕ) → Except DrmFailure (List ℕ)
  | [], _, _ => .ok []
  | card :: cards, gpuIdx, tilesPerCard =>
    let n := (tilesInCard card).length
    if tilesPerCard.getD n ≠ n then
      .error (.exception ⟨"DrmGpuTopo::DrmGpuTopo: Mixed counts of gpu_chip per gpu are not supported. " ++
        "Encountered at least one gpu with % tiles per card and % tiles on ",
        [(tilesPerCard.getD n : ℕ), (n : ℕ)], .invalid⟩)
    else do
      let rest ← numberChips cards (gpuIdx + 1) (some n)
      pure (List.replicate n gpuIdx ++ rest)

/-- The CPUs of a card and its NUMA node. -/
def localCpusAndNode (card : Card) : Except DrmFailure (Finset ℕ × CInt) := do
  let cpumaskBuf ← card.localCpus.elim (.error (.exception ⟨"Helper::read_file(): file", [], .invalid⟩)) .ok
  let cpus ← linuxCpumaskBufToIntSet cpumaskBuf
  let text ← card.numaNode.elim (.error (.exception ⟨"Helper::read_file(): file", [], .invalid⟩)) .ok
  let node ← (stoi text).elim (.error (.standard "stoi")) .ok
  pure (cpus, node)

/-- The constructor. -/
def make (drmDirectory : List Card) : Except DrmFailure DrmGpuTopo := do
  let drmCardPaths :=
    sortByName Card.name (getFilePathsWithPattern ['c', 'a', 'r', 'd'] Card.name drmDirectory)
  if drmCardPaths = [] then
    .error (.exception ⟨"DrmGpuTopo::DrmGpuTopo: No supported drm cards are detected", [], .runtime⟩)
  else do
    let driverCards ← getCardsFromMostFrequentDriver drmCardPaths
    let gpuByGpuChip ← numberChips driverCards.2 0 none
    let localCpus ← driverCards.2.mapM localCpusAndNode
    pure {
      driverName := driverCards.1
      cards := driverCards.2
      gpuByGpuChip
      cpuAffinityByGpu := localCpus.map Prod.fst
      numNuma := (localCpus.map Prod.snd).toFinset.card }

/-! ### The CPUs of a GPU or a chip -/

/-- The loop over the CPUs of a chip. -/
def insertTurn (cpuAffinity : List ℕ) (counterInc : ℕ) (hinc : 0 < counterInc) (counter : ℕ)
    (result : Finset ℕ) : Finset ℕ :=
  if h : counter < cpuAffinity.length then
    insertTurn cpuAffinity counterInc hinc (counter + counterInc) (insert cpuAffinity[counter] result)
  else result
  termination_by cpuAffinity.length - counter

/-- The CPUs of some of the chips of a GPU. -/
def insertChips (t : DrmGpuTopo) (gpuIdx : ℕ) (chips : List ℕ) : Except DrmFailure (Finset ℕ) :=
  let cpuAffinity := (t.cpuAffinityByGpu[gpuIdx]?.getD ∅).sort (· ≤ ·)
  if t.numNuma = 0 then .error .divisionByZero
  else
    let counterInc := t.gpuByGpuChip.length / t.numNuma
    chips.foldlM (fun result chipIdx =>
      if h : 0 < counterInc then
        .ok (insertTurn cpuAffinity counterInc h (chipIdx % counterInc) result)
      else .error .divisionByZero) ∅

def cpuAffinityIdeal (t : DrmGpuTopo) (domain : DomainType) (idx : ℤ) :
    Except DrmFailure (Finset ℕ) :=
  let outOfRange : Exception := ⟨"DrmGpuTopo::cpu_affinity_ideal: idx % is out of range", [idx], .invalid⟩
  if domain ≠ .gpu ∧ domain ≠ .gpuChip then
    .error (.exception ⟨"DrmGpuTopo::cpu_affinity_ideal: domain % is not supported.", [domain.num],
      .invalid⟩)
  else if domain = .gpu then
    if idx < 0 ∨ (t.cpuAffinityByGpu.length : ℤ) ≤ idx then .error (.exception outOfRange)
    else
      insertChips t idx.toNat ((List.range t.gpuByGpuChip.length).filter fun chipIdx =>
        t.gpuByGpuChip[chipIdx]? = some idx.toNat)
  else if idx < 0 ∨ (t.gpuByGpuChip.length : ℤ) ≤ idx then .error (.exception outOfRange)
  else insertChips t (t.gpuByGpuChip[idx.toNat]?.getD 0) [idx.toNat]

/-! ### What the constructor makes -/

variable {t : DrmGpuTopo} {drmDirectory cards : List Card} {chips : List ℕ} {x g c : ℕ}

theorem mem_insertTurn {cpuAffinity : List ℕ} {counterInc counter : ℕ} {hinc : 0 < counterInc}
    {result : Finset ℕ} :
    x ∈ insertTurn cpuAffinity counterInc hinc counter result ↔
      x ∈ result ∨ ∃ j, cpuAffinity[counter + j * counterInc]? = some x := by
  fun_induction insertTurn with
  | case1 counter result h ih =>
    rw [ih, Finset.mem_insert, or_comm (a := x = _), or_assoc]
    refine or_congr_right ⟨?_, ?_⟩
    · rintro (rfl | ⟨j, hj⟩)
      · exact ⟨0, by simp [h]⟩
      · exact ⟨j + 1, by rwa [succ_mul, Nat.add_comm (j * _), ← Nat.add_assoc]⟩
    · rintro ⟨j, hj⟩
      cases j with
      | zero => 
        rw [Nat.zero_mul, Nat.add_zero, getElem?_eq_getElem h] at hj
        exact .inl (Option.some.inj hj).symm
      | succ j => exact .inr ⟨j, by rwa [Nat.add_assoc, Nat.add_comm counterInc, ← succ_mul]⟩
  | case2 counter result h =>
    refine ⟨.inl, fun hx => hx.resolve_right ?_⟩
    rintro ⟨j, hj⟩
    obtain ⟨hlt, -⟩ := List.getElem?_eq_some_iff.mp hj
    omega

/-- The places that a chip goes to are those that leave its remainder. -/
theorem mem_turn_iff {l : List ℕ} {inc r : ℕ} (hr : r < inc) :
    x ∈ Dealing.turn l inc r ↔ ∃ j, l[r + j * inc]? = some x := by
  constructor
  · rintro ⟨k, rfl, hx⟩
    exact ⟨k / inc, by rwa [Nat.mul_comm, mod_add_div]⟩
  · rintro ⟨j, hx⟩
    exact ⟨r + j * inc, by rw [add_mul_mod_self_right, mod_eq_of_lt hr], hx⟩

def numGpu (t : DrmGpuTopo) : ℕ := t.cpuAffinityByGpu.length

def numChip (t : DrmGpuTopo) : ℕ := t.gpuByGpuChip.length

/-- The stride. -/
def counterInc (t : DrmGpuTopo) : ℕ := t.numChip / t.numNuma

/-- The GPU of a chip. -/
def gpuOf (t : DrmGpuTopo) (c : ℕ) : ℕ := t.gpuByGpuChip[c]?.getD 0

/-- The mask of a GPU. -/
def mask (t : DrmGpuTopo) (g : ℕ) : Finset ℕ := t.cpuAffinityByGpu[g]?.getD ∅

/-- The CPUs of a GPU that a chip gets. -/
def share (t : DrmGpuTopo) (g c : ℕ) : Set ℕ :=
  Dealing.turn ((t.mask g).sort (· ≤ ·)) t.counterInc (c % t.counterInc)

theorem insertChips_ok (hinc : 0 < t.counterInc) (g : ℕ) (chips : List ℕ) :
    ∃ cpus, insertChips t g chips = .ok cpus ∧ ∀ x, x ∈ cpus ↔ ∃ c ∈ chips, x ∈ t.share g c := by
  have hnuma : t.numNuma ≠ 0 := by
    intro h
    rw [counterInc, h, Nat.div_zero] at hinc
    exact absurd hinc (lt_irrefl 0)
  have hloop : ∀ result : Finset ℕ, ∃ cpus,
      chips.foldlM (fun result chipIdx =>
        if h : 0 < t.counterInc then
          Except.ok
            (insertTurn ((t.mask g).sort (· ≤ ·)) t.counterInc h (chipIdx % t.counterInc) result)
        else Except.error DrmFailure.divisionByZero) result = .ok cpus ∧
      ∀ x, x ∈ cpus ↔ x ∈ result ∨ ∃ c ∈ chips, x ∈ t.share g c := by
    induction chips with
    | nil => exact fun result => ⟨result, rfl, fun x => by simp⟩
    | cons c chips ih =>
      intro result
      obtain ⟨cpus, hcpus, hmem⟩ := ih (insertTurn ((t.mask g).sort (· ≤ ·)) t.counterInc hinc
        (c % t.counterInc) result)
      refine ⟨cpus, ?_, fun x => ?_⟩
      · rw [foldlM_cons, dif_pos hinc]
        exact hcpus
      · rw [hmem, mem_insertTurn, ← mem_turn_iff (mod_lt c hinc), or_assoc, exists_mem_cons_iff]
        rfl
  obtain ⟨cpus, hcpus, hmem⟩ := hloop ∅
  refine ⟨cpus, ?_, fun x => ?_⟩
  · rw [insertChips, if_neg hnuma]
    exact hcpus
  · rw [hmem]
    simp

/-- **The CPUs of a chip.** -/
theorem cpuAffinityIdeal_chip (hinc : 0 < t.counterInc) (hc : c < t.numChip) :
    ∃ cpus, t.cpuAffinityIdeal .gpuChip c = .ok cpus ∧
      ∀ x, x ∈ cpus ↔ x ∈ t.share (t.gpuOf c) c := by
  obtain ⟨cpus, hcpus, hmem⟩ := insertChips_ok hinc (t.gpuOf c) [c]
  have hrange : ¬ ((c : ℤ) < 0 ∨ (t.gpuByGpuChip.length : ℤ) ≤ c) := by
    rw [numChip] at hc
    omega
  refine ⟨cpus, ?_, fun x => ?_⟩
  · rw [cpuAffinityIdeal, if_neg (by simp), if_neg (by simp), if_neg hrange]
    exact hcpus
  · rw [hmem]
    simp

/-- **The CPUs of a GPU** are those of its chips. -/
theorem cpuAffinityIdeal_gpu (hinc : 0 < t.counterInc) (hg : g < t.numGpu) :
    ∃ cpus, t.cpuAffinityIdeal .gpu g = .ok cpus ∧
      ∀ x, x ∈ cpus ↔ ∃ c < t.numChip, t.gpuOf c = g ∧ x ∈ t.share g c := by
  obtain ⟨cpus, hcpus, hmem⟩ := insertChips_ok hinc g
    ((List.range t.numChip).filter fun c => t.gpuByGpuChip[c]? = some g)
  have hrange : ¬ ((g : ℤ) < 0 ∨ (t.cpuAffinityByGpu.length : ℤ) ≤ g) := by
    rw [numGpu] at hg
    omega
  refine ⟨cpus, ?_, fun x => ?_⟩
  · rw [cpuAffinityIdeal, if_neg (by simp), if_pos rfl, if_neg hrange]
    exact hcpus
  · rw [hmem]
    constructor
    · rintro ⟨c, hc, hx⟩
      rw [mem_filter, mem_range, decide_eq_true_eq] at hc
      exact ⟨c, hc.1, by rw [gpuOf, hc.2, Option.getD_some], hx⟩
    · rintro ⟨c, hc, hgpu, hx⟩
      refine ⟨c, ?_, hx⟩
      rw [mem_filter, mem_range, decide_eq_true_eq]
      have hsome : t.gpuByGpuChip[c]? = some t.gpuByGpuChip[c] := getElem?_eq_getElem hc
      rw [gpuOf, hsome, Option.getD_some] at hgpu
      exact ⟨hc, hsome.trans (congrArg some hgpu)⟩

theorem numberChips_ok {gpuIdx : ℕ} {tilesPerCard : Option ℕ}
    (h : numberChips cards gpuIdx tilesPerCard = .ok chips) :
    (∀ g ∈ chips, g < gpuIdx + cards.length) ∧
      ((∀ card ∈ cards, tilesInCard card ≠ []) → cards.length ≤ chips.length) := by
  induction cards generalizing gpuIdx tilesPerCard chips with
  | nil =>
    cases h
    exact ⟨nofun, fun _ => le_rfl⟩
  | cons card cards ih =>
    rw [numberChips] at h
    split_ifs at h
    obtain ⟨rest, hrest, heq⟩ := Except.exists_of_bind_eq_ok h
    cases heq
    obtain ⟨hlt, hlength⟩ := ih hrest
    refine ⟨fun g hg => ?_, fun htiles => ?_⟩
    · rw [length_cons]
      obtain hg | hg := mem_append.mp hg
      · rw [eq_of_mem_replicate hg]
        omega
      · have hltg := hlt g hg
        omega
    · have hone := length_pos_iff.mpr (htiles card mem_cons_self)
      have hothers := hlength fun c hc => htiles c (mem_cons_of_mem _ hc)
      rw [length_append, length_replicate, length_cons]
      omega

/-- The NUMA node of a GPU. -/
def node (t : DrmGpuTopo) (g : ℕ) : Option CInt :=
  t.cards[g]?.bind fun card => card.numaNode.bind stoi

/-- What the constructor makes. -/
structure Built (t : DrmGpuTopo) : Prop where
  length_eq : t.cpuAffinityByGpu.length = t.cards.length
  chips : numberChips t.cards 0 none = .ok t.gpuByGpuChip
  numNuma_le : t.numNuma ≤ t.cards.length
  numNuma_pos : t.cards ≠ [] → 0 < t.numNuma

theorem built_of_make (h : make drmDirectory = .ok t) : t.Built := by
  unfold make at h
  dsimp only at h
  split_ifs at h
  obtain ⟨driverCards, -, h⟩ := Except.exists_of_bind_eq_ok h
  obtain ⟨gpuByGpuChip, hchips, h⟩ := Except.exists_of_bind_eq_ok h
  obtain ⟨localCpus, hlocal, h⟩ := Except.exists_of_bind_eq_ok h
  cases h
  have hlength : localCpus.length = driverCards.2.length :=
    (Prog.mapM_eq_ok.mp hlocal).length_eq.symm
  refine ⟨(length_map _).trans hlength, hchips, ?_, fun hne => ?_⟩
  · calc (localCpus.map Prod.snd).toFinset.card ≤ (localCpus.map Prod.snd).length :=
          toFinset_card_le _
      _ = driverCards.2.length := (length_map _).trans hlength
  · rw [Finset.card_pos, toFinset_nonempty_iff, ne_eq, map_eq_nil_iff]
    rintro rfl
    exact hne (length_eq_zero_iff.mp hlength.symm)

/-! ### The CPUs of a NUMA node -/

/-- Every card has a tile; the cards of a NUMA node have the same mask, and other cards disjoint
ones. -/
structure Placed (t : DrmGpuTopo) : Prop where
  tiles : ∀ card ∈ t.cards, tilesInCard card ≠ []
  same : ∀ g < t.numGpu, ∀ g' < t.numGpu, t.node g = t.node g' → t.mask g = t.mask g'
  disjoint : ∀ g < t.numGpu, ∀ g' < t.numGpu, t.node g ≠ t.node g' → Disjoint (t.mask g) (t.mask g')

/-- The chips on the NUMA node of a GPU. -/
def chipsAt (t : DrmGpuTopo) (g : ℕ) : Set ℕ :=
  {c | c < t.numChip ∧ t.node (t.gpuOf c) = t.node g}

/-- The chips share out the CPUs of their NUMA nodes: no two have a CPU in common, those of a node have
all of its CPUs, none is left without if there are as many CPUs as chips, and a GPU has the CPUs of
its chips. -/
structure Shares (t : DrmGpuTopo) : Prop where
  chip : ∀ c < t.numChip, ∃ cpus, t.cpuAffinityIdeal .gpuChip c = .ok cpus
  disjoint : ∀ c < t.numChip, ∀ c' < t.numChip, c ≠ c' → ∀ cpus cpus',
    t.cpuAffinityIdeal .gpuChip c = .ok cpus → t.cpuAffinityIdeal .gpuChip c' = .ok cpus' →
      Disjoint cpus cpus'
  covers : ∀ g < t.numGpu, ∀ x, x ∈ t.mask g ↔
    ∃ c ∈ t.chipsAt g, ∃ cpus, t.cpuAffinityIdeal .gpuChip c = .ok cpus ∧ x ∈ cpus
  nonempty : ∀ g < t.numGpu, (t.chipsAt g).ncard ≤ (t.mask g).card → ∀ c ∈ t.chipsAt g, ∀ cpus,
    t.cpuAffinityIdeal .gpuChip c = .ok cpus → cpus.Nonempty
  gpu : ∀ g < t.numGpu, ∃ cpus, t.cpuAffinityIdeal .gpu g = .ok cpus ∧ ∀ x, x ∈ cpus ↔
    ∃ c < t.numChip, t.gpuOf c = g ∧ ∃ cpus', t.cpuAffinityIdeal .gpuChip c = .ok cpus' ∧ x ∈ cpus'

/-- On each NUMA node, every remainder by the stride that is less than the number of CPUs is that of
one chip, and if there are as many CPUs as chips, there are no other remainders. -/
def Numbered (t : DrmGpuTopo) : Prop :=
  ∀ g < t.numGpu,
    (∀ r < t.counterInc, r < (t.mask g).card → ∃! c, c ∈ t.chipsAt g ∧ c % t.counterInc = r) ∧
      ((t.chipsAt g).ncard ≤ (t.mask g).card → ∀ c ∈ t.chipsAt g, c % t.counterInc < (t.mask g).card)

theorem share_subset (g c : ℕ) : t.share g c ⊆ t.mask g := fun _ hx =>
  (Finset.mem_sort _).mp (Dealing.turn_subset hx)

section Shares

variable (hbuilt : t.Built) (hplaced : t.Placed)
include hbuilt

theorem gpuOf_lt (hc : c < t.numChip) : t.gpuOf c < t.numGpu := by
  have hsome : t.gpuByGpuChip[c]? = some t.gpuByGpuChip[c] := getElem?_eq_getElem hc
  rw [gpuOf, hsome, Option.getD_some, numGpu, hbuilt.length_eq]
  have hlt := (numberChips_ok hbuilt.chips).1 _ (getElem_mem hc)
  rwa [Nat.zero_add] at hlt

include hplaced

/-- **There is no division by zero.** -/
theorem counterInc_pos (hg : 0 < t.numGpu) : 0 < t.counterInc := by
  have hcards : t.cards ≠ [] := by
    rw [numGpu, hbuilt.length_eq] at hg
    exact length_pos_iff.mp hg
  exact Nat.div_pos (hbuilt.numNuma_le.trans ((numberChips_ok hbuilt.chips).2 hplaced.tiles))
    (hbuilt.numNuma_pos hcards)

theorem cpus_of_mem_chipsAt (hg : g < t.numGpu) (hc : c ∈ t.chipsAt g) :
    ∃ cpus, t.cpuAffinityIdeal .gpuChip c = .ok cpus ∧ ∀ x, x ∈ cpus ↔ x ∈ t.share g c := by
  obtain ⟨cpus, hcpus, hmem⟩ := cpuAffinityIdeal_chip
    (counterInc_pos hbuilt hplaced (zero_lt_of_lt hg)) hc.1
  have hmask := hplaced.same _ (gpuOf_lt hbuilt hc.1) g hg hc.2
  refine ⟨cpus, hcpus, fun x => ?_⟩
  rw [hmem, share, share, hmask]

/-- The chips share out the CPUs exactly when those of each NUMA node are dealt to its chips. -/
theorem shares_iff_deals :
    t.Shares ↔
      ∀ g < t.numGpu, Dealing.Deals ((t.mask g).sort (· ≤ ·)) (t.chipsAt g) (t.share g) := by
  constructor
  · intro h g hg
    refine ⟨fun c hc c' hc' hne => ?_, fun x hx => ?_, fun hcard c hc => ?_⟩
    · obtain ⟨cpus, hcpus, hmem⟩ := cpus_of_mem_chipsAt hbuilt hplaced hg hc
      obtain ⟨cpus', hcpus', hmem'⟩ := cpus_of_mem_chipsAt hbuilt hplaced hg hc'
      have hdisjoint := h.disjoint c hc.1 c' hc'.1 hne cpus cpus' hcpus hcpus'
      exact Set.disjoint_left.mpr fun x hx hx' =>
        Finset.disjoint_left.mp hdisjoint ((hmem x).mpr hx) ((hmem' x).mpr hx')
    · obtain ⟨c, hc, cpus, hcpus, hxc⟩ := (h.covers g hg x).mp ((Finset.mem_sort _).mp hx)
      obtain ⟨cpus', hcpus', hmem⟩ := cpus_of_mem_chipsAt hbuilt hplaced hg hc
      obtain rfl := Except.ok.inj (hcpus.symm.trans hcpus')
      exact ⟨c, hc, (hmem x).mp hxc⟩
    · obtain ⟨cpus, hcpus, hmem⟩ := cpus_of_mem_chipsAt hbuilt hplaced hg hc
      rw [Finset.length_sort] at hcard
      obtain ⟨x, hx⟩ := h.nonempty g hg hcard c hc cpus hcpus
      exact ⟨x, (hmem x).mp hx⟩
  · intro h
    have hself : ∀ c < t.numChip, c ∈ t.chipsAt (t.gpuOf c) := fun c hc => ⟨hc, rfl⟩
    have hcpus : ∀ c < t.numChip, ∃ cpus, t.cpuAffinityIdeal .gpuChip c = .ok cpus ∧
        ∀ x, x ∈ cpus ↔ x ∈ t.share (t.gpuOf c) c := fun c hc =>
      cpus_of_mem_chipsAt hbuilt hplaced (gpuOf_lt hbuilt hc) (hself c hc)
    refine ⟨fun c hc => (hcpus c hc).imp fun _ h => h.1, ?_, fun g hg x => ?_, ?_, fun g hg => ?_⟩
    · intro c hc c' hc' hne cpus cpus' heq heq'
      obtain ⟨_, hok, hmem⟩ := hcpus c hc
      obtain ⟨_, hok', hmem'⟩ := hcpus c' hc'
      obtain rfl := Except.ok.inj (heq.symm.trans hok)
      obtain rfl := Except.ok.inj (heq'.symm.trans hok')
      refine Finset.disjoint_left.mpr fun x hx hx' => ?_
      rw [hmem] at hx
      rw [hmem'] at hx'
      have hlt := gpuOf_lt hbuilt hc
      have hlt' := gpuOf_lt hbuilt hc'
      by_cases hnode : t.node (t.gpuOf c') = t.node (t.gpuOf c)
      · -- two chips of a node are dealt different CPUs
        rw [share, hplaced.same _ hlt' _ hlt hnode] at hx'
        exact Set.disjoint_left.mp ((h _ hlt).disjoint (hself c hc) ⟨hc', hnode⟩ hne) hx hx'
      · -- the masks of two nodes are disjoint
        have hmasks := hplaced.disjoint _ hlt' _ hlt hnode
        exact Finset.disjoint_left.mp hmasks (share_subset _ _ hx') (share_subset _ _ hx)
    · constructor
      · intro hx
        obtain ⟨c, hc, hxc⟩ := (h g hg).covers x ((Finset.mem_sort _).mpr hx)
        obtain ⟨cpus, hok, hmem⟩ := cpus_of_mem_chipsAt hbuilt hplaced hg hc
        exact ⟨c, hc, cpus, hok, (hmem x).mpr hxc⟩
      · rintro ⟨c, hc, cpus, hok, hx⟩
        obtain ⟨_, hok', hmem⟩ := cpus_of_mem_chipsAt hbuilt hplaced hg hc
        obtain rfl := Except.ok.inj (hok.symm.trans hok')
        exact share_subset g c ((hmem x).mp hx)
    · intro g hg hcard c hc cpus hok
      obtain ⟨_, hok', hmem⟩ := cpus_of_mem_chipsAt hbuilt hplaced hg hc
      obtain rfl := Except.ok.inj (hok.symm.trans hok')
      rw [← Finset.length_sort (· ≤ ·)] at hcard
      obtain ⟨x, hx⟩ := (h g hg).nonempty hcard c hc
      exact ⟨x, (hmem x).mpr hx⟩
    · obtain ⟨cpus, hok, hmem⟩ := cpuAffinityIdeal_gpu
        (counterInc_pos hbuilt hplaced (zero_lt_of_lt hg)) hg
      refine ⟨cpus, hok, fun x => (hmem x).trans ⟨?_, ?_⟩⟩
      · rintro ⟨c, hc, rfl, hx⟩
        obtain ⟨cpus', hok', hmem'⟩ := hcpus c hc
        exact ⟨c, hc, rfl, cpus', hok', (hmem' x).mpr hx⟩
      · rintro ⟨c, hc, rfl, cpus', heq, hx⟩
        obtain ⟨_, hok', hmem'⟩ := hcpus c hc
        obtain rfl := Except.ok.inj (heq.symm.trans hok')
        exact ⟨c, hc, rfl, (hmem' x).mp hx⟩

theorem shares_iff_numbered : t.Shares ↔ t.Numbered := by
  rw [shares_iff_deals hbuilt hplaced]
  refine forall₂_congr fun g hg => ?_
  have hinc := counterInc_pos hbuilt hplaced (zero_lt_of_lt hg)
  have hdeals := Dealing.deals_iff (Finset.sort_nodup (t.mask g) (· ≤ ·)) (I := t.chipsAt g)
    (f := fun c => c % t.counterInc) (fun c _ => mod_lt c hinc) hinc
  rw [Finset.length_sort] at hdeals
  exact hdeals

end Shares

/-- A mask of segments is read as the CPUs of its bits. -/
def ReadsMasks : Prop :=
  ∀ segments : List (List Char), (∀ segment ∈ segments, IsGroup segment) →
    ∃ cpus, linuxCpumaskBufToIntSet ([','].intercalate segments) = .ok cpus ∧
      ∀ x, x ∈ cpus ↔ (maskValue segments).testBit x = true

/-- **Masks are read, and the chips of each NUMA node share out its CPUs**, exactly when the numbers of
its chips have the remainders of its CPUs. -/
theorem shares_iff (h : make drmDirectory = .ok t) (hplaced : t.Placed) :
    ReadsMasks ∧ t.Shares ↔ t.Numbered := by
  rw [shares_iff_numbered (built_of_make h) hplaced]
  exact and_iff_right fun _ => mem_linuxCpumaskBufToIntSet

/-- A card with one tile that has a compute engine. -/
def oneTile (number localCpus : List Char) (numaNode : Char) : Card where
  name := ['c', 'a', 'r', 'd'] ++ number
  driver := some ['/', 'x', 'e']
  gt := [⟨['g', 't', '0'], some [['c', 'c', 's', '0']]⟩]
  localCpus := some localCpus
  numaNode := some [numaNode, '\n']

/-- One card on each of two NUMA nodes. -/
def oneOnEach : DrmGpuTopo where
  driverName := ['x', 'e']
  cards := [oneTile ['1', '0'] ['0', 'f', '\n'] '0', oneTile ['2'] ['f', '0', '\n'] '1']
  gpuByGpuChip := [0, 1]
  cpuAffinityByGpu := [{3, 2, 1, 0}, {7, 6, 5, 4}]
  numNuma := 2

/-- With the directory in another order than that of the names. -/
theorem shares_oneOnEach : ReadsMasks ∧ oneOnEach.Shares := by
  have hmake : make oneOnEach.cards.reverse = .ok oneOnEach := by decide +kernel
  have hplaced : oneOnEach.Placed := ⟨by decide, by decide, by decide⟩
  -- the stride is one, and the chip of each node has its number
  have hgpuOf : ∀ g < 2, oneOnEach.gpuOf g = g := by decide
  have hnode : ∀ c < 2, ∀ g < 2, oneOnEach.node (oneOnEach.gpuOf c) = oneOnEach.node g → c = g := by
    decide
  have hcard : ∀ g < 2, 0 < (oneOnEach.mask g).card := by decide
  refine (shares_iff hmake hplaced).mpr fun g hg => ⟨fun r hr _ => ?_, fun _ c _ =>
    (mod_one c).symm ▸ hcard g hg⟩
  obtain rfl : r = 0 := lt_one_iff.mp hr
  exact ⟨g, ⟨⟨hg, congrArg _ (hgpuOf g hg)⟩, mod_one g⟩, fun c hc => hnode c hc.1.1 g hg hc.1.2⟩

/-- Two cards on a NUMA node, and one on another. -/
def twoAndOne : DrmGpuTopo where
  driverName := ['x', 'e']
  cards := [oneTile ['0'] ['0', 'f', '\n'] '0', oneTile ['1'] ['0', 'f', '\n'] '0',
    oneTile ['2'] ['f', '0', '\n'] '1']
  gpuByGpuChip := [0, 1, 2]
  cpuAffinityByGpu := [{3, 2, 1, 0}, {3, 2, 1, 0}, {7, 6, 5, 4}]
  numNuma := 2

/-- The two chips of the first node get the same CPUs. -/
theorem not_shares :
    ¬ ∀ (drmDirectory : List Card) (t : DrmGpuTopo), make drmDirectory = .ok t → t.Placed →
      ReadsMasks ∧ t.Shares := by
  intro h
  have hmake : make twoAndOne.cards = .ok twoAndOne := by decide +kernel
  have hplaced : twoAndOne.Placed := ⟨by decide, by decide, by decide⟩
  have hnumbered := (shares_iff_numbered (built_of_make hmake) hplaced).mp (h _ _ hmake hplaced).2
  obtain ⟨c, -, hunique⟩ := (hnumbered 0 (by decide)).1 0 (by decide) (by decide)
  have hzero : 0 = c := hunique 0 ⟨⟨by decide, by decide⟩, by decide⟩
  have hone : 1 = c := hunique 1 ⟨⟨by decide, by decide⟩, by decide⟩
  exact absurd (hzero.trans hone.symm) (by decide)

end DrmGpuTopo

end Geopm.Pio
