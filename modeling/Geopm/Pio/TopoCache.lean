import Geopm.Lib.Text

/-!
# The topology cache

`create_cache` appends the CPUs of the GPUs and of the GPU chips to the text that `lscpu` prints,
and `PlatformTopoImp` reads the text back.

* `createCache`, `lscpu`, `parseLscpuGpu`, `parseLscpuNuma` : the writer and the readers;
* `lscpu_createCache` : the map that is read has the entries of the two texts;
* `lookup_gpuKey` : the entry of a GPU, which none of the other lines hides;
* `probe_eq` : the keys that are probed one after the other;
* `mem_parseMask` : the CPUs of a mask are its one bits;
* `topoCache_roundTrip` : the cache reads back.
-/

namespace Geopm.Pio.TopoCache

open Text
open List hiding set

/-! ### The writer -/

/-- The domains of GPUs. -/
inductive GpuDomain where
  | gpu | gpuChip
deriving DecidableEq, Repr

/-- `GPUTopo`: the CPU sets of the GPUs and of the GPU chips. -/
structure GPUTopo where
  gpu : List (Finset CInt)
  gpuChip : List (Finset CInt)

/-- `cpu_affinity_ideal`, for all indices of a domain. -/
def GPUTopo.cpuAffinityIdeal (t : GPUTopo) : GpuDomain → List (Finset CInt)
  | .gpu => t.gpu
  | .gpuChip => t.gpuChip

def gpuShortName : GpuDomain → List Char
  | .gpu => ['n', 'o', 'd', 'e']
  | .gpuChip => ['c', 'h', 'i', 'p']

/-- How the lines of GPUs begin. -/
def gpuPrefix : List Char := ['G', 'P', 'U', ' ']

/-- How the keys of CPU sets end. -/
def cpus : List Char := [' ', 'C', 'P', 'U', '(', 's', ')']

/-- The key of a GPU or of a GPU chip. -/
def gpuKey (domain : GpuDomain) (domainIdx : ℕ) : List Char :=
  gpuPrefix ++ (gpuShortName domain ++ (decimal domainIdx ++ cpus))

/-- The CPUs, each after a delimiter: the first one is a blank, and the others are commas. -/
def writeCpus (delim : Char) : List CInt → List Char
  | [] => []
  | cpuIdx :: rest => delim :: (decimal cpuIdx ++ writeCpus ',' rest)

/-- The line of a GPU or of a GPU chip. -/
def gpuLine (domain : GpuDomain) (cpuSet : Finset CInt) (domainIdx : ℕ) : List Char :=
  gpuKey domain domainIdx ++ ':' :: writeCpus ' ' (cpuSet.sort (· ≤ ·))

/-- The lines of a domain. -/
def gpuLines (t : GPUTopo) (domain : GpuDomain) : List (List Char) :=
  (t.cpuAffinityIdeal domain).zipIdx.map fun (cpuSet, domainIdx) =>
    gpuLine domain cpuSet domainIdx

/-- `create_cache`, with what `lscpu` prints. -/
def createCache (t : GPUTopo) (lscpuText : List Char) : List Char :=
  if t.gpu.length ≠ 0 then lscpuText ++ unlines (gpuLines t .gpu ++ gpuLines t .gpuChip)
  else lscpuText

/-! ### The readers -/

/-- `find_first_not_of(" \t")` and the text from there; a text of blanks is left as it is. -/
def trim (value : List Char) : List Char :=
  match value.dropWhile fun c => c = ' ' || c = '\t' with
  | [] => value
  | trimmed => trimmed

/-- The key and the value of a line. -/
def entry (line : List Char) : Option (List Char × List Char) :=
  match line.dropWhile (· ≠ ':') with
  | [] => none
  | _ :: value =>
    if line.takeWhile (· ≠ ':') = [] then none
    else some (line.takeWhile (· ≠ ':'), trim value)

/-- `lscpu`, with the text of the cache: the first entry of a key is the one that is found. -/
def lscpu (text : List Char) : List (List Char × List Char) := (getlines text).filterMap entry

/-- The values of the keys that are found, one after the other.  There are no more of them than the
map has entries. -/
def probe (find : ℕ → Option (List Char)) : ℕ → ℕ → List (List Char)
  | 0, _ => []
  | fuel + 1, idx =>
    match find idx with
    | none => []
    | some value => value :: probe find fuel (idx + 1)

/-- The CPU set of a value; `none` when `std::stoi` throws. -/
def parseCpus (value : List Char) : Option (Finset CInt) :=
  ((split ',' value).mapM stoi).map List.toFinset

def parseLscpuGpu (lscpuMap : List (List Char × List Char)) (domain : GpuDomain) :
    Option (List (Finset CInt)) :=
  (probe (fun domainIdx => lscpuMap.lookup (gpuKey domain domainIdx)) (lscpuMap.length + 1)
    0).mapM parseCpus

/-- `std::stoul` of one character, with the base 16. -/
def hexDigit (c : Char) : Option ℕ :=
  if '0' ≤ c ∧ c ≤ '9' then some (c.toNat - '0'.toNat)
  else if 'a' ≤ c ∧ c ≤ 'f' then some (c.toNat - 'a'.toNat + 10)
  else if 'A' ≤ c ∧ c ≤ 'F' then some (c.toNat - 'A'.toNat + 10)
  else none

/-- One turn of the loop over the bits of a digit: the digit, the index of the CPU and the set. -/
def bitStep : ℕ × ℕ × Finset ℕ → ℕ × ℕ × Finset ℕ
  | (hmb, cpuIdx, cpuSet) =>
    (hmb >>> 1, cpuIdx + 1, if hmb % 2 = 1 then insert cpuIdx cpuSet else cpuSet)

/-- The loop over the bits of a digit. -/
def digitStep (s : ℕ × Finset ℕ) (hmb : ℕ) : ℕ × Finset ℕ := (bitStep^[4] (hmb, s)).2

/-- A mask without the text `0x` that it may begin with. -/
def hexMask (value : List Char) : List Char :=
  if value.take 2 = ['0', 'x'] then value.drop 2 else value

/-- The CPU set of a mask; `none` when `std::stoul` throws. -/
def parseMask (value : List Char) : Option (Finset ℕ) :=
  ((hexMask value).reverse.mapM hexDigit).map fun digits => (digits.foldl digitStep (0, ∅)).2

/-- The key of a NUMA node. -/
def numaKey (nodeIdx : ℕ) : List Char :=
  ['N', 'U', 'M', 'A', ' ', 'n', 'o', 'd', 'e'] ++ (decimal nodeIdx ++ cpus)

/-- `parse_lscpu_numa`: without any nodes, there is one with all CPUs. -/
def parseLscpuNuma (numCpu : ℕ) (lscpuMap : List (List Char × List Char)) :
    Option (List (Finset ℕ)) :=
  ((probe (fun nodeIdx => lscpuMap.lookup (numaKey nodeIdx)) (lscpuMap.length + 1)
    0).mapM parseMask).map fun numaMap => if numaMap = [] then [Finset.range numCpu] else numaMap

/-! ### Keys and lines -/

section Keys

variable {domain domain' : GpuDomain} {i j : ℕ}

theorem decimal_natCast (n : ℕ) : decimal n = Nat.toDigits 10 n := by
  unfold decimal
  rw [if_neg (by omega), Int.natAbs_natCast]

theorem decimal_natCast_injective {m n : ℕ} (h : decimal m = decimal n) : m = n := by
  rw [decimal_natCast, decimal_natCast] at h
  have hm := Nat.ofDigitChars_ten_toDigits (n := m)
  rw [h, Nat.ofDigitChars_ten_toDigits] at hm
  exact hm.symm

theorem gpuKey_injective (h : gpuKey domain i = gpuKey domain' j) : domain = domain' ∧ i = j := by
  have hrest := append_cancel_left h
  have hlength : (gpuShortName domain).length = (gpuShortName domain').length := by
    cases domain <;> cases domain' <;> rfl
  obtain ⟨hname, hidx⟩ := append_inj hrest hlength
  refine ⟨?_, decimal_natCast_injective (append_cancel_right hidx)⟩
  cases domain <;> cases domain' <;> first | rfl | exact absurd hname (by decide)

theorem numaKey_injective (h : numaKey i = numaKey j) : i = j :=
  decimal_natCast_injective (append_cancel_right (append_cancel_left h))

/-- The characters that neither a key nor a number contains. -/
theorem not_mem_gpuKey {c : Char} (hc : c = ':' ∨ c = '\n') : c ∉ gpuKey domain i := by
  have hdecimal : c ∉ decimal i := by
    obtain rfl | rfl := hc <;> exact not_mem_decimal (by decide) (by decide)
  intro h
  unfold gpuKey at h
  simp only [mem_append] at h
  obtain h | h | h | h := h
  · obtain rfl | rfl := hc <;> revert h <;> decide
  · obtain rfl | rfl := hc <;> cases domain <;> revert h <;> decide
  · exact hdecimal h
  · obtain rfl | rfl := hc <;> revert h <;> decide

theorem writeCpus_eq (delim : Char) {set : List CInt} (h : set ≠ []) :
    writeCpus delim set = delim :: [','].intercalate (set.map fun cpu : CInt => decimal cpu) := by
  cases set with
  | nil => exact absurd rfl h
  | cons cpu rest =>
    clear h
    rw [writeCpus]
    refine congrArg (delim :: ·) ?_
    induction rest generalizing cpu with
    | nil => simp [writeCpus]
    | cons next rest ih =>
      rw [writeCpus, ih next]
      simp [List.intercalate]

theorem not_mem_writeCpus {delim : Char} (hdelim : delim ≠ '\n') (set : List CInt) :
    '\n' ∉ writeCpus delim set := by
  induction set generalizing delim with
  | nil => exact not_mem_nil
  | cons cpu rest ih =>
    intro h
    obtain h | h := mem_cons.mp h
    · exact hdelim h.symm
    · obtain h | h := mem_append.mp h
      · exact not_mem_decimal (by decide) (by decide) h
      · exact ih (by decide) h

theorem not_mem_gpuLine (domain : GpuDomain) (set : Finset CInt) (i : ℕ) :
    '\n' ∉ gpuLine domain set i := by
  intro h
  obtain h | h := mem_append.mp h
  · exact not_mem_gpuKey (.inr rfl) h
  · obtain h | h := mem_cons.mp h
    · exact absurd h (by decide)
    · exact not_mem_writeCpus (by decide) _ h

/-- The value of the line of a GPU, as it is read. -/
def gpuValue (set : Finset CInt) : List Char :=
  [','].intercalate ((set.sort (· ≤ ·)).map fun cpu : CInt => decimal cpu)

theorem trim_cons {c : Char} (hspace : c ≠ ' ') (htab : c ≠ '\t') (text : List Char) :
    trim (' ' :: c :: text) = c :: text := by
  simp [trim, hspace, htab]

/-- The blank before the CPUs is trimmed. -/
theorem trim_writeCpus (set : List CInt) :
    trim (writeCpus ' ' set) = [','].intercalate (set.map fun cpu : CInt => decimal cpu) := by
  cases set with
  | nil => rfl
  | cons cpu rest =>
    have hwrite := writeCpus_eq ' ' (cons_ne_nil cpu rest)
    rw [← cons_inj_right ' ', ← hwrite, writeCpus]
    refine congrArg (' ' :: ·) ?_
    cases hdecimal : decimal cpu with
    | nil => exact absurd hdecimal (decimal_ne_nil cpu)
    | cons c cs =>
      have hc : c ∈ decimal cpu := hdecimal ▸ mem_cons_self
      refine trim_cons ?_ ?_ _
      · rintro rfl
        exact not_mem_decimal (by decide) (by decide) hc
      · rintro rfl
        exact not_mem_decimal (by decide) (by decide) hc

theorem entry_gpuLine (domain : GpuDomain) (set : Finset CInt) (i : ℕ) :
    entry (gpuLine domain set i) = some (gpuKey domain i, gpuValue set) := by
  have hkey : ∀ c ∈ gpuKey domain i, (decide (c ≠ ':')) = true := by
    intro c hc
    refine decide_eq_true fun hcolon => ?_
    exact not_mem_gpuKey (.inl hcolon) hc
  have htake : (gpuLine domain set i).takeWhile (· ≠ ':') = gpuKey domain i := by
    unfold gpuLine
    rw [takeWhile_append_of_pos hkey]
    simp
  have hdrop : (gpuLine domain set i).dropWhile (· ≠ ':') =
      ':' :: writeCpus ' ' (set.sort (· ≤ ·)) := by
    unfold gpuLine
    rw [dropWhile_append_of_pos hkey]
    simp
  unfold entry
  rw [hdrop, htake]
  dsimp only
  rw [if_neg (by simp [gpuKey, gpuPrefix]), trim_writeCpus]
  rfl

theorem mapM_stoi_decimal (set : List CInt) :
    (set.map fun cpu : CInt => decimal cpu).mapM stoi = some set := by
  induction set with
  | nil => rfl
  | cons cpu rest ih =>
    rw [map_cons, mapM_cons, stoi_decimal, ih]
    rfl

theorem parseCpus_gpuValue (set : Finset CInt) : parseCpus (gpuValue set) = some set := by
  have hpieces : split ',' (gpuValue set) =
      (set.sort (· ≤ ·)).map fun cpu : CInt => decimal cpu := by
    unfold gpuValue
    cases set.sort (· ≤ ·) with
    | nil => rfl
    | cons cpu rest =>
      refine split_intercalate ?_ (by simp) ?_
      · intro piece hpiece
        obtain ⟨cpu', -, rfl⟩ := mem_map.mp hpiece
        exact not_mem_decimal (by decide) (by decide)
      · intro h
        exact decimal_ne_nil cpu (List.cons.inj h).1
  unfold parseCpus
  rw [hpieces, mapM_stoi_decimal, Option.map_some, Finset.sort_toFinset]

end Keys

/-! ### The map that is read -/

section Entries

variable {t : GPUTopo} {lscpuText : List Char} {domain : GpuDomain}

/-- The entries of a domain. -/
def gpuEntries (t : GPUTopo) (domain : GpuDomain) : List (List Char × List Char) :=
  (t.cpuAffinityIdeal domain).zipIdx.map fun (cpuSet, domainIdx) =>
    (gpuKey domain domainIdx, gpuValue cpuSet)

theorem filterMap_gpuLines (t : GPUTopo) (domain : GpuDomain) :
    (gpuLines t domain).filterMap entry = gpuEntries t domain := by
  unfold gpuLines gpuEntries
  rw [filterMap_map, ← filterMap_eq_map]
  refine filterMap_congr fun pair _ => ?_
  exact entry_gpuLine domain pair.1 pair.2

/-- **The map has the entries of the two texts.** -/
theorem lscpu_createCache (hterminated : Terminated lscpuText)
    (hchip : t.gpu = [] → t.gpuChip = []) :
    lscpu (createCache t lscpuText) =
      lscpu lscpuText ++ (gpuEntries t .gpu ++ gpuEntries t .gpuChip) := by
  unfold createCache
  split_ifs with hgpu
  · have hlines : ∀ line ∈ gpuLines t .gpu ++ gpuLines t .gpuChip, '\n' ∉ line := by
      intro line hline
      obtain hline | hline := mem_append.mp hline
      all_goals
        obtain ⟨pair, -, rfl⟩ := mem_map.mp hline
        exact not_mem_gpuLine _ _ _
    unfold lscpu
    rw [getlines_append hterminated, getlines_unlines hlines, filterMap_append,
      filterMap_append, filterMap_gpuLines, filterMap_gpuLines]
  · have hnil : t.gpu = [] := length_eq_zero_iff.mp (not_not.mp hgpu)
    simp [gpuEntries, GPUTopo.cpuAffinityIdeal, hnil, hchip hnil]

/-- A key of the text of `lscpu` begins as its line does. -/
theorem not_prefix_of_mem_lscpu (hlscpu : ∀ line ∈ getlines lscpuText, ¬ gpuPrefix <+: line)
    {pair : List Char × List Char} (h : pair ∈ lscpu lscpuText) : ¬ gpuPrefix <+: pair.1 := by
  obtain ⟨line, hline, hentry⟩ := mem_filterMap.mp h
  intro hprefix
  refine hlscpu line hline ?_
  unfold entry at hentry
  split at hentry
  · cases hentry
  · split_ifs at hentry
    cases hentry
    exact hprefix.trans <| takeWhile_prefix _

theorem lookup_zipIdx {α β γ : Type*} [BEq β] [LawfulBEq β] {key : ℕ → β} {value : α → γ}
    (hkey : Function.Injective key) (set : List α) (first i : ℕ) (hfirst : first ≤ i) :
    ((set.zipIdx first).map fun (x, j) => (key j, value x)).lookup (key i) =
      set[i - first]?.map value := by
  induction set generalizing first with
  | nil => rfl
  | cons x rest ih =>
    rw [zipIdx_cons, map_cons]
    obtain rfl | hlt := Nat.eq_or_lt_of_le hfirst
    · simp
    · have hne : (key i == key first) = false := by
        refine beq_eq_false_iff_ne.mpr fun h => ?_
        exact absurd (hkey h) (by omega)
      obtain ⟨k, hk⟩ := Nat.exists_eq_add_of_lt hlt
      rw [lookup_cons, hne, ih (first + 1) hlt, hk]
      simp [show first + k + 1 - (first + 1) = k by omega,
        show first + k + 1 - first = k + 1 by omega]

theorem lookup_gpuEntries (t : GPUTopo) (domain : GpuDomain) (i : ℕ) :
    (gpuEntries t domain).lookup (gpuKey domain i) =
      (t.cpuAffinityIdeal domain)[i]?.map gpuValue :=
  lookup_zipIdx (fun _ _ h => (gpuKey_injective h).2) _ 0 i (Nat.zero_le i)

theorem exists_of_mem_gpuEntries {pair : List Char × List Char} (h : pair ∈ gpuEntries t domain) :
    ∃ i, pair.1 = gpuKey domain i := by
  obtain ⟨x, -, rfl⟩ := mem_map.mp h
  exact ⟨x.2, rfl⟩

theorem lookup_gpuEntries_of_ne {key : List Char} (h : ∀ i, key ≠ gpuKey domain i) :
    (gpuEntries t domain).lookup key = none := by
  refine lookup_eq_none_iff.mpr fun pair hpair => ?_
  obtain ⟨i, hi⟩ := exists_of_mem_gpuEntries hpair
  exact bne_iff_ne.mpr fun heq => h i (heq.trans hi)

/-- **The entry of a GPU**, which none of the other lines hides. -/
theorem lookup_gpuKey (hlscpu : ∀ line ∈ getlines lscpuText, ¬ gpuPrefix <+: line)
    (hterminated : Terminated lscpuText) (hchip : t.gpu = [] → t.gpuChip = []) (i : ℕ) :
    (lscpu (createCache t lscpuText)).lookup (gpuKey domain i) =
      ((t.cpuAffinityIdeal domain).map gpuValue)[i]? := by
  have hnone : (lscpu lscpuText).lookup (gpuKey domain i) = none := by
    refine lookup_eq_none_iff.mpr fun pair hpair => ?_
    refine bne_iff_ne.mpr fun h => ?_
    exact not_prefix_of_mem_lscpu hlscpu hpair (h ▸ prefix_append _ _)
  rw [lscpu_createCache hterminated hchip, lookup_append, lookup_append, hnone,
    Option.none_or, getElem?_map, ← lookup_gpuEntries]
  cases domain with
  | gpu =>
    have hne : ∀ j, gpuKey .gpu i ≠ gpuKey .gpuChip j := fun j h => nomatch (gpuKey_injective h).1
    rw [lookup_gpuEntries_of_ne hne, Option.or_none]
  | gpuChip =>
    have hne : ∀ j, gpuKey .gpuChip i ≠ gpuKey .gpu j := fun j h => nomatch (gpuKey_injective h).1
    rw [lookup_gpuEntries_of_ne hne, Option.none_or]

/-- The entries of the other keys are those of the text of `lscpu`. -/
theorem lookup_of_not_prefix (hterminated : Terminated lscpuText)
    (hchip : t.gpu = [] → t.gpuChip = []) {key : List Char} (hkey : ¬ gpuPrefix <+: key) :
    (lscpu (createCache t lscpuText)).lookup key = (lscpu lscpuText).lookup key := by
  have hne : ∀ domain i, key ≠ gpuKey domain i := by
    rintro domain i rfl
    exact hkey (prefix_append _ _)
  rw [lscpu_createCache hterminated hchip, lookup_append, lookup_append,
    lookup_gpuEntries_of_ne (hne .gpu), lookup_gpuEntries_of_ne (hne .gpuChip), Option.or_none,
    Option.or_none]

end Entries

/-! ### Probing -/

section Probing

theorem probe_of_length {find : ℕ → Option (List Char)} {values : List (List Char)}
    (hfind : ∀ i, find i = values[i]?) (fuel idx : ℕ) (hfuel : values.length < fuel + idx) :
    probe find fuel idx = values.drop idx := by
  induction fuel generalizing idx with
  | zero => exact (drop_eq_nil_of_le (by omega)).symm
  | succ fuel ih =>
    unfold probe
    rw [hfind idx]
    cases hidx : values[idx]? with
    | none => exact (drop_eq_nil_of_le (List.getElem?_eq_none_iff.mp hidx)).symm
    | some value =>
      obtain ⟨hlt, rfl⟩ := List.getElem?_eq_some_iff.mp hidx
      dsimp only
      rw [ih (idx + 1) (by omega), drop_eq_getElem_cons hlt]

/-- **The values of the keys that are found**: a map with as many keys has as many entries. -/
theorem probe_eq {lscpuMap : List (List Char × List Char)} {key : ℕ → List Char}
    (hkey : Function.Injective key) {values : List (List Char)}
    (hfind : ∀ i, lscpuMap.lookup (key i) = values[i]?) :
    probe (fun i => lscpuMap.lookup (key i)) (lscpuMap.length + 1) 0 = values := by
  have hsubset : (List.range values.length).map key ⊆ lscpuMap.map Prod.fst := by
    intro k hk
    obtain ⟨i, hi, rfl⟩ := mem_map.mp hk
    have hlt : i < values.length := mem_range.mp hi
    have hsome : lscpuMap.lookup (key i) = some values[i] := by
      rw [hfind, getElem?_eq_getElem hlt]
    by_contra hnot
    rw [lookup_eq_none_iff.mpr fun pair hpair => ?_] at hsome
    · cases hsome
    · refine bne_iff_ne.mpr fun h => hnot ?_
      exact h ▸ mem_map_of_mem hpair
  have hlength : values.length ≤ lscpuMap.length := by
    have hle := (subperm_of_subset (nodup_range.map hkey) hsubset).length_le
    simpa using hle
  rw [probe_of_length hfind _ 0 (by omega), drop_zero]

end Probing

/-! ### Masks -/

/-- The number that hexadecimal digits stand for. -/
def hexValue (digits : List Char) : ℕ := Nat.ofDigits 16 (digits.filterMap hexDigit).reverse

/-- Digits with or without the text `0x` before them. -/
def maskText (withPrefix : Bool) (digits : List Char) : List Char :=
  if withPrefix then '0' :: 'x' :: digits else digits

section Masks

variable {hmb cpuIdx cpu : ℕ} {cpuSet : Finset ℕ} {digits : List Char}

/-- The first bits of a digit. -/
theorem bits_iterate (hmb cpuIdx : ℕ) (cpuSet : Finset ℕ) (count : ℕ) :
    ∃ set, bitStep^[count] (hmb, cpuIdx, cpuSet) = (hmb >>> count, cpuIdx + count, set) ∧
      ∀ cpu, cpu ∈ set ↔
        cpu ∈ cpuSet ∨ cpuIdx ≤ cpu ∧ cpu < cpuIdx + count ∧ hmb.testBit (cpu - cpuIdx) := by
  induction count with
  | zero =>
    refine ⟨cpuSet, rfl, fun cpu => ?_⟩
    constructor
    · exact .inl
    · rintro (h | ⟨hle, hlt, -⟩)
      · exact h
      · omega
  | succ count ih =>
    obtain ⟨set, hrun, hset⟩ := ih
    rw [Function.iterate_succ_apply', hrun]
    refine ⟨_, rfl, fun cpu => ?_⟩
    -- the bit of this turn is the one of the index that is reached
    have hbit : (hmb >>> count) % 2 = 1 ↔ hmb.testBit count = true := by
      rw [Nat.testBit_eq_decide_div_mod_eq, Nat.shiftRight_eq_div_pow, decide_eq_true_iff]
    have hcpu : cpu ∈ (if (hmb >>> count) % 2 = 1 then insert (cpuIdx + count) set else set) ↔
        cpu ∈ set ∨ cpu = cpuIdx + count ∧ hmb.testBit count = true := by
      rw [← hbit]
      split_ifs with h
      · rw [Finset.mem_insert, or_comm]
        simp [h]
      · simp [h]
    rw [hcpu, hset, or_assoc]
    refine or_congr_right ?_
    constructor
    · rintro (⟨hle, hlt, h⟩ | ⟨rfl, h⟩)
      · exact ⟨hle, by omega, h⟩
      · exact ⟨by omega, by omega, by rwa [Nat.add_sub_cancel_left]⟩
    · rintro ⟨hle, hlt, h⟩
      obtain hlt | heq := Nat.lt_succ_iff_lt_or_eq.mp hlt
      · exact .inl ⟨hle, hlt, h⟩
      · have heq : cpu = cpuIdx + count := heq
        refine .inr ⟨heq, ?_⟩
        rwa [heq, Nat.add_sub_cancel_left] at h

theorem digitStep_eq (cpuIdx : ℕ) (cpuSet : Finset ℕ) (hmb : ℕ) :
    ∃ set, digitStep (cpuIdx, cpuSet) hmb = (cpuIdx + 4, set) ∧
      ∀ cpu, cpu ∈ set ↔
        cpu ∈ cpuSet ∨ cpuIdx ≤ cpu ∧ cpu < cpuIdx + 4 ∧ hmb.testBit (cpu - cpuIdx) := by
  obtain ⟨set, hrun, hset⟩ := bits_iterate hmb cpuIdx cpuSet 4
  exact ⟨set, congrArg Prod.snd hrun, hset⟩

theorem mem_foldl_digitStep {hmbs : List ℕ} (hlt : ∀ hmb ∈ hmbs, hmb < 16) :
    cpu ∈ (hmbs.foldl digitStep (cpuIdx, cpuSet)).2 ↔
      cpu ∈ cpuSet ∨ cpuIdx ≤ cpu ∧ (Nat.ofDigits 16 hmbs).testBit (cpu - cpuIdx) := by
  induction hmbs generalizing cpuIdx cpuSet with
  | nil => simp
  | cons hmb rest ih =>
    obtain ⟨set, hstep, hset⟩ := digitStep_eq cpuIdx cpuSet hmb
    have hdigit : hmb < 2 ^ 4 := hlt hmb mem_cons_self
    have hvalue : Nat.ofDigits 16 (hmb :: rest) = 2 ^ 4 * Nat.ofDigits 16 rest + hmb := by
      rw [Nat.ofDigits_cons, add_comm]
      rfl
    rw [foldl_cons, hstep, ih fun h hmem => hlt h (mem_cons_of_mem _ hmem), hset, hvalue,
      Nat.testBit_two_pow_mul_add _ hdigit, or_assoc]
    refine or_congr_right ?_
    obtain hlow | hhigh := Nat.lt_or_ge (cpu - cpuIdx) 4
    · rw [if_pos hlow]
      constructor
      · rintro (⟨hle, -, h⟩ | ⟨hle, h⟩)
        · exact ⟨hle, h⟩
        · omega
      · rintro ⟨hle, h⟩
        exact .inl ⟨hle, by omega, h⟩
    · rw [if_neg (by omega), Nat.sub_sub]
      constructor
      · rintro (⟨hle, hlt, -⟩ | ⟨hle, h⟩)
        · omega
        · exact ⟨by omega, h⟩
      · rintro ⟨hle, h⟩
        exact .inr ⟨by omega, h⟩

theorem toNat_le_toNat {c d : Char} (h : c ≤ d) : c.toNat ≤ d.toNat :=
  UInt32.le_iff_toNat_le.mp h

theorem hexDigit_lt {c : Char} (h : hexDigit c = some hmb) : hmb < 16 := by
  unfold hexDigit at h
  split_ifs at h with h1 h2 h3
  · have hle : c.toNat ≤ 57 := toNat_le_toNat h1.2
    cases h
    show c.toNat - 48 < 16
    omega
  · have hle : c.toNat ≤ 102 := toNat_le_toNat h2.2
    cases h
    show c.toNat - 97 + 10 < 16
    omega
  · have hle : c.toNat ≤ 70 := toNat_le_toNat h3.2
    cases h
    show c.toNat - 65 + 10 < 16
    omega

section

variable (h : ∀ c ∈ digits, (hexDigit c).isSome = true)
include h

theorem mapM_hexDigit :
    digits.mapM hexDigit = some (digits.filterMap hexDigit) := by
  induction digits with
  | nil => rfl
  | cons c cs ih =>
    obtain ⟨hmb, hc⟩ := Option.isSome_iff_exists.mp (h c mem_cons_self)
    rw [mapM_cons, hc, ih fun d hd => h d (mem_cons_of_mem _ hd),
      filterMap_cons_some hc]
    rfl

theorem hexMask_maskText (withPrefix : Bool) :
    hexMask (maskText withPrefix digits) = digits := by
  cases withPrefix with
  | true => rfl
  | false =>
    refine if_neg fun htake => ?_
    have htake : digits.take 2 = ['0', 'x'] := htake
    have hx : 'x' ∈ digits := mem_of_mem_take (i := 2) (by rw [htake]; decide)
    exact absurd (h 'x' hx) (by decide)

/-- **The CPUs of a mask are its one bits.** -/
theorem parseMask_maskText (withPrefix : Bool) :
    ∃ set, parseMask (maskText withPrefix digits) = some set ∧
      ∀ cpu, cpu ∈ set ↔ (hexValue digits).testBit cpu = true := by
  have hmapM : digits.reverse.mapM hexDigit = some (digits.filterMap hexDigit).reverse := by
    rw [mapM_hexDigit fun c hc => h c (mem_reverse.mp hc), filterMap_reverse]
  unfold parseMask
  rw [hexMask_maskText h, hmapM]
  refine ⟨_, rfl, fun cpu => ?_⟩
  have hlt : ∀ hmb ∈ (digits.filterMap hexDigit).reverse, hmb < 16 := by
    intro hmb hmem
    obtain ⟨c, -, hc⟩ := mem_filterMap.mp (mem_reverse.mp hmem)
    exact hexDigit_lt hc
  rw [mem_foldl_digitStep hlt]
  simp [hexValue]

end

theorem mapM_parseMask {masks : List (Bool × List Char)}
    (h : ∀ mask ∈ masks, ∀ c ∈ mask.2, (hexDigit c).isSome = true) :
    ∃ sets, (masks.map fun mask => maskText mask.1 mask.2).mapM parseMask = some sets ∧
      masks.Forall₂ (fun mask set => ∀ cpu, cpu ∈ set ↔ (hexValue mask.2).testBit cpu = true)
        sets := by
  induction masks with
  | nil => exact ⟨[], rfl, .nil⟩
  | cons mask rest ih =>
    obtain ⟨set, hset, hmem⟩ := parseMask_maskText (h mask mem_cons_self) mask.1
    obtain ⟨sets, hsets, hmems⟩ := ih fun m hm => h m (mem_cons_of_mem _ hm)
    refine ⟨set :: sets, ?_, .cons hmem hmems⟩
    rw [map_cons, mapM_cons, hset, hsets]
    rfl

end Masks

/-! ### Reading back -/

theorem mapM_parseCpus (sets : List (Finset CInt)) :
    (sets.map gpuValue).mapM parseCpus = some sets := by
  induction sets with
  | nil => rfl
  | cons set rest ih =>
    rw [map_cons, mapM_cons, parseCpus_gpuValue, ih]
    rfl

/-- **The cache reads back**: the CPU sets of the GPUs and of the GPU chips, in their order, the
entries of `lscpu` as they are without a GPU, and the masks of the NUMA nodes.  A GPU has to be
there for the chips to be written, and the text of `lscpu` ends with a terminated line. -/
theorem topoCache_roundTrip (t : GPUTopo) (lscpuText : List Char)
    (hlscpu : ∀ line ∈ getlines lscpuText, ¬ gpuPrefix <+: line)
    (hterminated : Terminated lscpuText) (hchip : t.gpu = [] → t.gpuChip = []) :
    (∀ domain, parseLscpuGpu (lscpu (createCache t lscpuText)) domain =
        some (t.cpuAffinityIdeal domain)) ∧
      (∀ key, ¬ gpuPrefix <+: key →
        (lscpu (createCache t lscpuText)).lookup key = (lscpu lscpuText).lookup key) ∧
      (∀ (numCpu : ℕ) (lscpuMap : List (List Char × List Char)) (masks : List (Bool × List Char)),
        masks ≠ [] → (∀ mask ∈ masks, ∀ c ∈ mask.2, (hexDigit c).isSome = true) →
        (∀ nodeIdx, lscpuMap.lookup (numaKey nodeIdx) =
          (masks.map fun mask => maskText mask.1 mask.2)[nodeIdx]?) →
        ∃ sets, parseLscpuNuma numCpu lscpuMap = some sets ∧
          masks.Forall₂ (fun mask set =>
            ∀ cpu, cpu ∈ set ↔ (hexValue mask.2).testBit cpu = true) sets) := by
  refine ⟨fun domain => ?_, fun key hkey => ?_, fun numCpu lscpuMap masks hne hhex hfind => ?_⟩
  · unfold parseLscpuGpu
    rw [probe_eq (fun _ _ h => (gpuKey_injective h).2)
      (lookup_gpuKey hlscpu hterminated hchip), mapM_parseCpus]
  · exact lookup_of_not_prefix hterminated hchip hkey
  · obtain ⟨sets, hsets, hmem⟩ := mapM_parseMask hhex
    refine ⟨sets, ?_, hmem⟩
    have hsetsNe : sets ≠ [] := by
      rintro rfl
      exact hne (forall₂_nil_right_iff.mp hmem)
    unfold parseLscpuNuma
    rw [probe_eq (fun _ _ h => numaKey_injective h) hfind, hsets, Option.map_some,
      if_neg hsetsNe]

/-- What `lscpu` prints on a machine with sixteen CPUs. -/
def sixteenCpus : List Char := "CPU(s): 16\nNUMA node0 CPU(s): 0xffff\n".toList

theorem topoCache_roundTrip_sixteen :
    let t : GPUTopo := ⟨[{⟨0, by decide⟩, ⟨12, by decide⟩}], [∅, {⟨12, by decide⟩}]⟩
    (∀ domain, parseLscpuGpu (lscpu (createCache t sixteenCpus)) domain =
        some (t.cpuAffinityIdeal domain)) ∧
      ∃ sets, parseLscpuNuma 16 (lscpu sixteenCpus) = some sets ∧
        [(true, "ffff".toList)].Forall₂ (fun mask set =>
          ∀ cpu, cpu ∈ set ↔ (hexValue mask.2).testBit cpu = true) sets := by
  intro t
  obtain ⟨hgpu, -, hnuma⟩ := topoCache_roundTrip t sixteenCpus (by decide) (.inr rfl)
    fun h => absurd h (cons_ne_nil _ _)
  have hhex : ("ffff".toList.all fun c => (hexDigit c).isSome) = true := rfl
  refine ⟨hgpu, hnuma 16 _ [(true, "ffff".toList)] (cons_ne_nil _ _) ?_ ?_⟩
  · intro mask hmask
    rw [mem_singleton.mp hmask]
    exact all_eq_true.mp hhex
  have hmap : lscpu sixteenCpus = [("CPU(s)".toList, "16".toList), (numaKey 0, "0xffff".toList)] :=
    rfl
  rintro (_ | nodeIdx)
  · rfl
  · rw [hmap]
    refine lookup_eq_none_iff.mpr fun pair hpair => bne_iff_ne.mpr fun h => ?_
    obtain rfl | hpair := mem_cons.mp hpair
    · exact absurd (List.cons.inj h).1 (by decide)
    · rw [mem_singleton.mp hpair] at h
      exact absurd (numaKey_injective h) (Nat.succ_ne_zero nodeIdx)

/-- Without a GPU the chips are not written, and a last line that is not terminated takes the line
of the first GPU with it. -/
theorem not_topoCache_roundTrip :
    (parseLscpuGpu (lscpu (createCache ⟨[], [∅]⟩ "CPU(s): 1\n".toList)) .gpuChip = some [] ∧
      (∀ line ∈ getlines "CPU(s): 1\n".toList, ¬ gpuPrefix <+: line)) ∧
    (parseLscpuGpu (lscpu (createCache ⟨[∅], []⟩ "CPU(s): 1".toList)) .gpu = some [] ∧
      (∀ line ∈ getlines "CPU(s): 1".toList, ¬ gpuPrefix <+: line)) := by
  refine ⟨⟨rfl, by decide⟩, ?_, by decide⟩
  have hlines : gpuLines ⟨[∅], []⟩ .gpu = ["GPU node0 CPU(s):".toList] := by
    simp [gpuLines, gpuLine, GPUTopo.cpuAffinityIdeal]
    rfl
  unfold createCache
  rw [if_pos (by decide), hlines]
  rfl

end Geopm.Pio.TopoCache
