import Geopm.Lib.Fallible
import Geopm.Lib.SortedMap
import Geopm.Lib.Text
import Geopm.Pio.PlatformTopo
import Geopm.Pio.SysfsIOGroup

/-!
# `CpufreqSysfsDriver`

A policy of cpufreq is a directory with the settings of some CPUs, which its file `affected_cpus` lists.
The driver reads these files into one buffer, chooses the domain of its signals, and finds the policy of
an index of the domain.

* `loadCpufreqCpusByResource` : the files are read; `CpufreqSysfsDriver.make` : the constructor;
* `CpufreqSysfsDriver.attributePath` : the file of a signal or a control;
* `Layout` : policies with CPUs of their own; `Reaches` : the settings reach all of them;
* `parse_held` : what is parsed of a buffer in which longer texts have left something;
* `reaches_iff` : the layouts in which the settings reach all policies.
-/

namespace Geopm.Pio

open Text
open List

/-! ### The policies -/

/-- A file of the directory of cpufreq, and the text of its `affected_cpus`, if that can be read. -/
structure CpufreqEntry where
  name : List Char
  affectedCpus : Option (List Char) := none

/-- Whether the name starts with `policy`. -/
def CpufreqEntry.isPolicy (entry : CpufreqEntry) : Bool :=
  ['p', 'o', 'l', 'i', 'c', 'y'].isPrefixOf entry.name

/-- `map::emplace`: a key that is there keeps its value. -/
def emplace {K V : Type} [LT K] [DecidableLT K] [DecidableEq K] (key : K) (value : V)
    (map : List (K × V)) : List (K × V) :=
  if (map.lookup key).isSome then map else SortedMap.assign key value map

/-- The text in a buffer, up to the first null character. -/
def bufferText (cpuBuf : List Char) : List Char := cpuBuf.takeWhile (· ≠ '\x00')

/-- `load_cpufreq_cpus_by_resource`, from the buffer and the map that the entries before have left. -/
def loadCpufreqCpusByResource : List CpufreqEntry → (cpuBuf : List Char) →
    List (List Char × List CInt) → Except Exception (List (List Char × List CInt))
  | [], _, result => .ok result
  | entry :: entries, cpuBuf, result =>
    if !entry.isPolicy then loadCpufreqCpusByResource entries cpuBuf result
    else
      match entry.affectedCpus with
      | none => .error ⟨"CpufreqSysfsDriver failed to read ", [], .errno 5⟩
      | some text =>
        let readBytes := text.take (ioBufferSize - 1)
        let cpuBuf := readBytes ++ cpuBuf.drop readBytes.length
        if readBytes.length = ioBufferSize - 1 then
          .error ⟨"CpufreqSysfsDriver truncated read from ", [], .errno 0⟩
        else
          match (split ' ' (bufferText cpuBuf)).mapM stoi with
          | none => .error ⟨"CpufreqSysfsDriver: Failed to parse cpu resource map", [], .runtime⟩
          | some affectedCpus =>
            loadCpufreqCpusByResource entries cpuBuf (emplace entry.name affectedCpus result)

def resourcesByCpuFromCpusByResource (cpusByResource : List (List Char × List CInt)) :
    List (ℤ × List Char) :=
  cpusByResource.foldl (fun map it => it.2.foldl (fun map cpu => emplace cpu.1 it.1 map) map) []

/-! ### The driver -/

/-- The names of the signals and controls, with their attributes. -/
def cpufreqProperties : List (String × String) :=
  [("CPUFREQ::BIOS_LIMIT", "bios_limit"), ("CPUFREQ::CPUINFO_CUR_FREQ", "cpuinfo_cur_freq"),
    ("CPUFREQ::CPUINFO_MAX_FREQ", "cpuinfo_max_freq"),
    ("CPUFREQ::CPUINFO_MIN_FREQ", "cpuinfo_min_freq"),
    ("CPUFREQ::CPUINFO_TRANSITION_LATENCY", "cpuinfo_transition_latency"),
    ("CPUFREQ::CPU_GOVERNOR", "scaling_governor"),
    ("CPUFREQ::SCALING_CUR_FREQ", "scaling_cur_freq"),
    ("CPUFREQ::SCALING_MAX_FREQ", "scaling_max_freq"),
    ("CPUFREQ::SCALING_MIN_FREQ", "scaling_min_freq"),
    ("CPUFREQ::SCALING_SETSPEED", "scaling_setspeed")]

/-- The members of `CpufreqSysfsDriver`. -/
structure CpufreqSysfsDriver where
  cpusByResource : List (List Char × List CInt)
  resourceByCpu : List (ℤ × List Char)
  domain : DomainType
  topo : PlatformTopoImp

namespace CpufreqSysfsDriver

def cpuNestedDomains : List DomainType := [.cpu, .core, .package, .board]

/-- The loop over the policies: whether each lies in one index of a domain. -/
def isCorrectDomain (topo : PlatformTopoImp) (outerDomain : DomainType) :
    List (List Char × List CInt) → Except Exception Bool
  | [] => .ok true
  | (_, affectedCpus) :: resources => do
    let affectedDomainIndices ← affectedCpus.mapM fun cpu => topo.domainIdx outerDomain cpu.1
    if 1 < affectedDomainIndices.toFinset.card then pure false
    else isCorrectDomain topo outerDomain resources

/-- The loop over the domains. -/
def chooseDomain (topo : PlatformTopoImp) (resources : List (List Char × List CInt)) :
    List DomainType → DomainType → Except Exception DomainType
  | [], domain => .ok domain
  | outerDomain :: domains, domain => do
    let isCorrect ← isCorrectDomain topo outerDomain resources
    if isCorrect && PlatformTopoImp.isNestedDomain domain outerDomain then pure outerDomain
    else chooseDomain topo resources domains domain

/-- The constructor. -/
def make (topo : PlatformTopoImp) (directory : List CpufreqEntry) :
    Except Exception CpufreqSysfsDriver := do
  let cpusByResource ←
    loadCpufreqCpusByResource directory (List.replicate ioBufferSize '\x00') []
  let domain ← chooseDomain topo cpusByResource cpuNestedDomains .cpu
  pure ⟨cpusByResource, resourcesByCpuFromCpusByResource cpusByResource, domain, topo⟩

/-- `attribute_path`: the policy and the attribute that make up the path. -/
def attributePath (d : CpufreqSysfsDriver) (name : String) (domainIdx : ℤ) :
    Except Exception (List Char × String) := do
  let cpusInDomainIdx ← d.topo.domainNested .cpu d.domain domainIdx
  match (cpusInDomainIdx.toFinset.sort (· ≤ ·)).findSome? fun cpuIdx => d.resourceByCpu.lookup cpuIdx with
  | none =>
    .error ⟨"CpufreqSysfsDriver::attribute_path(): domain_idx % does not have a cpufreq entry.",
      [domainIdx], .runtime⟩
  | some resource =>
    match cpufreqProperties.lookup name with
    | none => .error ⟨"CpufreqSysfsDriver::attribute_path(): No such signal " ++ name, [], .runtime⟩
    | some attr => pure (resource, attr)

end CpufreqSysfsDriver

/-! ### What a file leaves in the buffer -/

/-- The text of `affected_cpus`. -/
def affectedCpusText (cpus : List CInt) : List Char :=
  [' '].intercalate (cpus.map fun cpu => decimal cpu.1) ++ ['\n']

/-- A text that is read into the buffer, and what it leaves of the texts before. -/
def hold (held text : List Char) : List Char := text ++ held.drop text.length

/-- What is left of the texts before, beyond the end of each text, has no space. -/
def LeavesNoSpace : (held : List Char) → (texts : List (List Char)) → Prop
  | _, [] => True
  | held, text :: texts =>
    ' ' ∉ held.drop text.length ∧ LeavesNoSpace (hold held text) texts

variable {P : CInt → Prop}

section Buffer

variable {held text : List Char} {cpus : List CInt} {c : Char}

/-- The buffer holds a text, and null characters. -/
structure Buffered (cpuBuf held : List Char) : Prop where
  text : '\x00' ∉ held
  rest : ∃ n, cpuBuf = held ++ List.replicate n '\x00'

theorem bufferText_of_buffered {cpuBuf : List Char} (h : Buffered cpuBuf held) :
    bufferText cpuBuf = held := by
  obtain ⟨htext, n, rfl⟩ := h
  have hall : held.takeWhile (· ≠ '\x00') = held :=
    takeWhile_eq_self_iff.mpr fun c hc => by
      rw [decide_eq_true_eq]
      rintro rfl
      exact htext hc
  rw [bufferText, takeWhile_append, hall, if_pos rfl]
  cases n with
  | zero => simp
  | succ n => simp [replicate_succ]

/-- A text without null characters is read into the buffer. -/
theorem Buffered.hold {cpuBuf : List Char} (h : Buffered cpuBuf held) (htext : '\x00' ∉ text) :
    Buffered (text ++ cpuBuf.drop text.length) (hold held text) := by
  obtain ⟨hheld, n, rfl⟩ := h
  refine ⟨?_, ?_⟩
  · rw [Pio.hold, mem_append, not_or]
    exact ⟨htext, fun hmem => hheld (mem_of_mem_drop hmem)⟩
  · refine ⟨n - (text.length - held.length), ?_⟩
    rw [drop_append, drop_replicate, ← append_assoc]
    rfl

/-- What is parsed of a text after its first piece are CPUs with a property. -/
def TailCpus (P : CInt → Prop) (text : List Char) : Prop :=
  ∀ piece ∈ (text.splitOn ' ').tail, ∃ cpu, P cpu ∧ stoi piece = some cpu

theorem TailCpus.parse (h : TailCpus P text) :
    ∃ extra, (text.splitOn ' ').tail.mapM stoi = some extra ∧ (∀ cpu ∈ extra, P cpu) ∧
      (extra = [] ↔ ' ' ∉ text) := by
  rw [← tail_splitOn_eq_nil_iff]
  rw [TailCpus] at h
  generalize (text.splitOn ' ').tail = pieces at h ⊢
  induction pieces with
  | nil => exact ⟨[], rfl, by simp, by simp⟩
  | cons piece pieces ih =>
    obtain ⟨extra, hextra, hall, -⟩ := ih fun p hp => h p (mem_cons_of_mem _ hp)
    obtain ⟨cpu, hcpu, hparse⟩ := h piece mem_cons_self
    refine ⟨cpu :: extra, ?_, forall_mem_cons.mpr ⟨hcpu, hall⟩, by simp⟩
    rw [mapM_cons, hparse, hextra]
    rfl

theorem TailCpus.drop (h : TailCpus P text) (n : ℕ) : TailCpus P (text.drop n) :=
  fun piece hpiece => h piece (tail_splitOn_drop_subset n text hpiece)

/-- A text of CPUs before another text. -/
theorem affectedCpusText_append (cpu : CInt) (cpus : List CInt) (text : List Char) :
    affectedCpusText (cpu :: cpus) ++ text = decimal cpu.1 ++
      match cpus with
      | [] => '\n' :: text
      | other :: others => ' ' :: (affectedCpusText (other :: others) ++ text) := by
  cases cpus with
  | nil => simp [affectedCpusText]
  | cons other others => simp [affectedCpusText, intercalate_cons_cons]

/-- **What is parsed of a text of CPUs before another one** : the CPUs, and what follows the first space
of the other text. -/
theorem parse_append (hne : cpus ≠ []) (text : List Char) :
    ((affectedCpusText cpus ++ text).splitOn ' ').mapM stoi =
      ((text.splitOn ' ').tail.mapM stoi).map (cpus ++ ·) := by
  induction cpus with
  | nil => exact absurd rfl hne
  | cons cpu cpus ih =>
    have hspace : ' ' ∉ decimal cpu.1 := not_mem_decimal (by decide) (by decide)
    rw [affectedCpusText_append]
    cases cpus with
    | nil =>
      have hpiece : ' ' ∉ decimal cpu.1 ++ ['\n'] := by simp [hspace]
      dsimp only
      rw [← singleton_append, ← append_assoc, splitOn_append_of_not_mem hpiece]
      cases hpieces : text.splitOn ' ' with
      | nil => exact absurd hpieces (splitOn_ne_nil _ _)
      | cons first others =>
        rw [modifyHead_cons, mapM_cons, append_assoc, singleton_append,
          stoi_decimal_append cpu (by decide), tail_cons]
        cases others.mapM stoi <;> rfl
    | cons other others =>
      dsimp only
      rw [splitOn_append_cons_self_of_not_mem hspace, mapM_cons, stoi_decimal,
        ih (cons_ne_nil _ _)]
      cases (text.splitOn ' ').tail.mapM stoi <;> rfl

theorem cpus_of_append (h : TailCpus P text) (hne : cpus ≠ []) (hcpus : ∀ cpu ∈ cpus, P cpu) :
    ∀ piece ∈ (affectedCpusText cpus ++ text).splitOn ' ', ∃ cpu, P cpu ∧ stoi piece = some cpu := by
  induction cpus with
  | nil => exact absurd rfl hne
  | cons cpu cpus ih =>
    have hcpu := hcpus cpu mem_cons_self
    have hspace : ' ' ∉ decimal cpu.1 := not_mem_decimal (by decide) (by decide)
    rw [affectedCpusText_append]
    cases cpus with
    | nil =>
      have hpiece : ' ' ∉ decimal cpu.1 ++ ['\n'] := by simp [hspace]
      dsimp only
      rw [← singleton_append, ← append_assoc, splitOn_append_of_not_mem hpiece]
      rw [TailCpus] at h
      cases hpieces : text.splitOn ' ' with
      | nil => exact absurd hpieces (splitOn_ne_nil _ _)
      | cons first others =>
        rw [hpieces, tail_cons] at h
        rw [modifyHead_cons, forall_mem_cons]
        refine ⟨⟨cpu, hcpu, ?_⟩, h⟩
        rw [append_assoc, singleton_append]
        exact stoi_decimal_append cpu (by decide) first
    | cons other others =>
      dsimp only
      rw [splitOn_append_cons_self_of_not_mem hspace, forall_mem_cons]
      exact ⟨⟨cpu, hcpu, stoi_decimal cpu⟩,
        ih (cons_ne_nil _ _) fun c hc => hcpus c (mem_cons_of_mem _ hc)⟩

theorem TailCpus.hold (h : TailCpus P held) (hne : cpus ≠ []) (hcpus : ∀ cpu ∈ cpus, P cpu) :
    TailCpus P (hold held (affectedCpusText cpus)) := fun piece hpiece =>
  cpus_of_append (h.drop _) hne hcpus piece (mem_of_mem_tail hpiece)

theorem not_mem_affectedCpusText (cpus : List CInt) : '\x00' ∉ affectedCpusText cpus := by
  induction cpus with
  | nil => decide
  | cons cpu cpus ih =>
    have hcpu : '\x00' ∉ decimal cpu.1 := not_mem_decimal (by decide) (by decide)
    rw [← append_nil (affectedCpusText _), affectedCpusText_append]
    cases cpus with
    | nil => simpa using hcpu
    | cons other others => simpa using ⟨hcpu, ih⟩

theorem affectedCpusText_ne_nil (cpus : List CInt) : affectedCpusText cpus ≠ [] := by
  simp [affectedCpusText]

end Buffer

/-! ### What the files are loaded to -/

section Load

variable {K V : Type} [LT K] [DecidableLT K] [DecidableEq K] {key : K} {value : V}
  {map pairs : List (K × V)}

theorem lookup_emplace (key other : K) (value : V) (map : List (K × V)) :
    (emplace key value map).lookup other =
      (map.lookup other).or (if other = key then some value else none) := by
  unfold emplace
  split_ifs with hkey hother hother
  · subst hother
    obtain ⟨v, hv⟩ := Option.isSome_iff_exists.mp hkey
    simp [hv]
  · simp
  · subst hother
    rw [Option.not_isSome_iff_eq_none] at hkey
    simp [SortedMap.lookup_assign, hkey]
  · simp [SortedMap.lookup_assign, hother]

theorem lookup_foldl_emplace (pairs map : List (K × V)) (key : K) :
    (pairs.foldl (fun map it => emplace it.1 it.2 map) map).lookup key =
      (map.lookup key).or (pairs.lookup key) := by
  induction pairs generalizing map with
  | nil => simp
  | cons it pairs ih =>
    obtain ⟨first, v⟩ := it
    rw [foldl_cons, ih, lookup_emplace, SortedMap.lookup_cons_ite, Option.or_assoc]
    split_ifs <;> simp

theorem mem_emplace (h : map.lookup key = none) {it : K × V} :
    it ∈ emplace key value map ↔ it = (key, value) ∨ it ∈ map := by
  unfold emplace
  rw [if_neg (by simp [h])]
  induction map with
  | nil => simp [SortedMap.assign]
  | cons first map ih =>
    obtain ⟨other, v⟩ := first
    rw [SortedMap.lookup_cons_ite] at h
    split_ifs at h with hother
    rw [SortedMap.assign]
    split_ifs
    · simp
    · simp [ih h, or_left_comm]

theorem mem_foldl_emplace (hkeys : (pairs.map Prod.fst).Nodup)
    (h : ∀ it ∈ pairs, map.lookup it.1 = none) {it : K × V} :
    it ∈ pairs.foldl (fun map it => emplace it.1 it.2 map) map ↔ it ∈ map ∨ it ∈ pairs := by
  induction pairs generalizing map with
  | nil => simp
  | cons first pairs ih =>
    rw [map_cons, nodup_cons] at hkeys
    rw [foldl_cons, ih hkeys.2, mem_emplace (h first mem_cons_self), mem_cons,
      or_comm (a := it = _), or_assoc]
    intro other hother
    have hne : other.1 ≠ first.1 := fun heq => hkeys.1 (heq ▸ mem_map_of_mem hother)
    rw [lookup_emplace, h other (mem_cons_of_mem _ hother), if_neg hne]
    rfl

end Load

/-- The policies of a directory: their names differ, each has CPUs of the topology, and no two have a
CPU in common. -/
structure Layout (topo : PlatformTopoImp) (directory : List CpufreqEntry)
    (policies : List (List Char × List CInt)) : Prop where
  files : directory.filter CpufreqEntry.isPolicy =
    policies.map fun p => ⟨p.1, some (affectedCpusText p.2)⟩
  names : (policies.map Prod.fst).Nodup
  nonempty : ∀ p ∈ policies, p.2 ≠ []
  existing : ∀ p ∈ policies, ∀ cpu ∈ p.2, topo.IsIdx .cpu cpu.1
  disjoint : ∀ p ∈ policies, ∀ p' ∈ policies, ∀ cpu ∈ p.2, cpu ∈ p'.2 → p = p'

variable {directory : List CpufreqEntry}

section Files

variable {policies : List (List Char × List CInt)} {cpuBuf held : List Char}
  {result : List (List Char × List CInt)}

/-- The texts fit into the buffer. -/
def Fits (policies : List (List Char × List CInt)) : Prop :=
  ∀ p ∈ policies, (affectedCpusText p.2).length < ioBufferSize - 1

variable (result) in
/-- **What the files are loaded to** : each policy has its CPUs, and others that are left in the
buffer. -/
theorem load_ok (hfits : Fits policies)
    (hfiles : directory.filter CpufreqEntry.isPolicy =
      policies.map fun p => ⟨p.1, some (affectedCpusText p.2)⟩)
    (hne : ∀ p ∈ policies, p.2 ≠ []) (hcpus : ∀ p ∈ policies, ∀ cpu ∈ p.2, P cpu)
    (hbuf : Buffered cpuBuf held) (hheld : TailCpus P held) :
    ∃ loaded, loadCpufreqCpusByResource directory cpuBuf result =
        .ok (loaded.foldl (fun map it => emplace it.1 it.2 map) result) ∧
      loaded.map Prod.fst = policies.map Prod.fst ∧ (∀ p ∈ loaded, ∀ cpu ∈ p.2, P cpu) ∧
      (loaded = policies ↔ LeavesNoSpace held (policies.map fun p => affectedCpusText p.2)) := by
  induction directory generalizing policies cpuBuf held result with
  | nil =>
    rw [filter_nil] at hfiles
    obtain rfl := map_eq_nil_iff.mp hfiles.symm
    exact ⟨[], rfl, rfl, nofun, by simp [LeavesNoSpace]⟩
  | cons entry directory ih =>
    rw [loadCpufreqCpusByResource]
    cases hpolicy : entry.isPolicy with
    | false =>
      rw [List.filter_cons_of_neg (by simp [hpolicy])] at hfiles
      exact ih _ hfits hfiles hne hcpus hbuf hheld
    | true =>
      rw [List.filter_cons_of_pos hpolicy] at hfiles
      obtain ⟨p, rest, rfl, rfl, hrest⟩ := map_eq_cons_iff.mp hfiles.symm
      have hlt := hfits p mem_cons_self
      have htake : (affectedCpusText p.2).take (ioBufferSize - 1) = affectedCpusText p.2 :=
        take_of_length_le hlt.le
      have hbuf' := hbuf.hold (not_mem_affectedCpusText p.2)
      have hheld' := hheld.hold (hne p mem_cons_self) (hcpus p mem_cons_self)
      -- the CPUs of the policy, and those that are left after the first space
      obtain ⟨extra, hextra, hall, hspace⟩ := (hheld.drop (affectedCpusText p.2).length).parse
      have hparse : (split ' ' (hold held (affectedCpusText p.2))).mapM stoi =
          some (p.2 ++ extra) := by
        rw [split, if_neg (by simp [hold, affectedCpusText_ne_nil]), hold,
          parse_append (hne p mem_cons_self), hextra]
        rfl
      obtain ⟨loaded, hload, hnames, hin, hiff⟩ := ih (emplace p.1 (p.2 ++ extra) result)
        (fun q hq => hfits q (mem_cons_of_mem _ hq)) hrest.symm
        (fun q hq => hne q (mem_cons_of_mem _ hq))
        (fun q hq => hcpus q (mem_cons_of_mem _ hq)) hbuf' hheld'
      refine ⟨(p.1, p.2 ++ extra) :: loaded, ?_, ?_, ?_, ?_⟩
      · dsimp only
        rw [htake, if_neg hlt.ne, bufferText_of_buffered hbuf', hparse]
        exact hload
      · rw [map_cons, map_cons, hnames]
      · refine forall_mem_cons.mpr ⟨fun cpu hcpu => ?_, hin⟩
        obtain hcpu | hcpu := mem_append.mp hcpu
        · exact hcpus p mem_cons_self cpu hcpu
        · exact hall cpu hcpu
      · rw [map_cons, LeavesNoSpace, ← hiff, ← hspace, List.cons.injEq]
        refine and_congr_left fun _ => ?_
        simp [Prod.ext_iff]

variable (cpuBuf result) in
theorem load_error (hlong : ¬ Fits policies)
    (hfiles : directory.filter CpufreqEntry.isPolicy =
      policies.map fun p => ⟨p.1, some (affectedCpusText p.2)⟩) :
    ∃ e, loadCpufreqCpusByResource directory cpuBuf result = .error e := by
  induction directory generalizing policies cpuBuf result with
  | nil =>
    rw [filter_nil] at hfiles
    obtain rfl := map_eq_nil_iff.mp hfiles.symm
    exact absurd nofun hlong
  | cons entry directory ih =>
    rw [loadCpufreqCpusByResource]
    cases hpolicy : entry.isPolicy with
    | false =>
      rw [List.filter_cons_of_neg (by simp [hpolicy])] at hfiles
      exact ih _ _ hlong hfiles
    | true =>
      rw [List.filter_cons_of_pos hpolicy] at hfiles
      obtain ⟨p, rest, rfl, rfl, hrest⟩ := map_eq_cons_iff.mp hfiles.symm
      dsimp only
      rw [if_neg (by simp)]
      split_ifs with hlength
      · exact ⟨_, rfl⟩
      · split
        · exact ⟨_, rfl⟩
        · refine ih _ _ (fun hfits => hlong ?_) hrest.symm
          refine forall_mem_cons.mpr ⟨?_, hfits⟩
          rw [length_take] at hlength
          omega

end Files

/-! ### The domain -/

namespace CpufreqSysfsDriver

variable {topo : PlatformTopoImp} {i c : ℤ}

section Domain

open PlatformTopoImp

variable {domain : DomainType} {resources policies : List (List Char × List CInt)}

/-- The CPUs lie in one index of a domain. -/
def WithinOne (topo : PlatformTopoImp) (domain : DomainType) (cpus : List CInt) : Prop :=
  ∀ cpu ∈ cpus, ∀ cpu' ∈ cpus, topo.cpuDomain domain cpu.1 = topo.cpuDomain domain cpu'.1

instance (topo : PlatformTopoImp) (domain : DomainType) (cpus : List CInt) :
    Decidable (WithinOne topo domain cpus) :=
  inferInstanceAs (Decidable (∀ cpu ∈ cpus, ∀ cpu' ∈ cpus,
    topo.cpuDomain domain cpu.1 = topo.cpuDomain domain cpu'.1))

/-- The finest of the domains in which each policy lies in one index. -/
def finestDomain (topo : PlatformTopoImp) (policies : List (List Char × List CInt)) : DomainType :=
  (cpuNestedDomains.find? fun domain => ∀ p ∈ policies, WithinOne topo domain p.2).getD .board

theorem hasCpus_of_mem (h : domain ∈ cpuNestedDomains) :
    hasCpus domain = true ∧ isNestedDomain .cpu domain = true := by
  revert h
  revert domain
  decide

theorem isCorrectDomain_eq (hdomain : hasCpus domain = true)
    (h : ∀ p ∈ resources, ∀ cpu ∈ p.2, topo.IsIdx .cpu cpu.1) :
    isCorrectDomain topo domain resources =
      .ok (decide (∀ p ∈ resources, WithinOne topo domain p.2)) := by
  induction resources with
  | nil => simp [isCorrectDomain]
  | cons p resources ih =>
    obtain ⟨hp, hrest⟩ := forall_mem_cons.mp h
    have hmap : p.2.mapM (fun cpu => topo.domainIdx domain cpu.1) =
        .ok (p.2.map fun cpu => topo.cpuDomain domain cpu.1) := by
      rw [Prog.mapM_eq_ok, forall₂_map_right_iff, forall₂_same]
      exact fun cpu hcpu => domainIdx_eq hdomain (hp cpu hcpu)
    have hone : (p.2.map fun cpu => topo.cpuDomain domain cpu.1).toFinset.card ≤ 1 ↔
        WithinOne topo domain p.2 := by
      rw [Finset.card_le_one, WithinOne]
      simp only [mem_toFinset, forall_mem_map]
    rw [isCorrectDomain, hmap]
    change (if _ then _ else _) = _
    simp only [forall_mem_cons]
    split_ifs with hcard
    · rw [← not_le, hone] at hcard
      simp [hcard]
      rfl
    · rw [not_lt, hone] at hcard
      rw [ih hrest]
      simp [hcard]

theorem chooseDomain_eq {domains : List DomainType} (hdomains : domains ⊆ cpuNestedDomains)
    (h : ∀ p ∈ resources, ∀ cpu ∈ p.2, topo.IsIdx .cpu cpu.1) :
    chooseDomain topo resources domains .cpu =
      .ok ((domains.find? fun domain => ∀ p ∈ resources, WithinOne topo domain p.2).getD .cpu) := by
  induction domains with
  | nil => rfl
  | cons domain domains ih =>
    obtain ⟨hcpus, hnested⟩ := hasCpus_of_mem (hdomains mem_cons_self)
    rw [chooseDomain, isCorrectDomain_eq hcpus h]
    change (if _ then _ else _) = _
    rw [hnested, Bool.and_true, find?_cons]
    by_cases hcorrect : ∀ p ∈ resources, WithinOne topo domain p.2
    · rw [if_pos (decide_eq_true hcorrect), decide_eq_true hcorrect]
      rfl
    · rw [if_neg (by simpa using hcorrect), decide_eq_false hcorrect]
      exact ih fun d hd => hdomains (mem_cons_of_mem _ hd)

/-- Every policy lies in the board. -/
theorem find?_eq_finestDomain (topo : PlatformTopoImp) (policies : List (List Char × List CInt)) :
    (cpuNestedDomains.find? fun domain => ∀ p ∈ policies, WithinOne topo domain p.2) =
      some (finestDomain topo policies) := by
  have hboard : ∀ p ∈ policies, WithinOne topo .board p.2 := fun _ _ _ _ _ _ => rfl
  unfold finestDomain
  cases hfind : cpuNestedDomains.find? fun domain => ∀ p ∈ policies, WithinOne topo domain p.2 with
  | some domain => rfl
  | none => exact absurd hboard (by simpa using find?_eq_none.mp hfind .board (by decide))

theorem cpuDomain_of_mem (hdomain : domain ∈ cpuNestedDomains) (hi : topo.IsIdx domain i)
    (hc : c ∈ topo.cpusOf domain i) : topo.cpuDomain domain c = i := by
  obtain ⟨n, rfl, hn⟩ := exists_natCast hi
  simp only [cpuNestedDomains, mem_cons, not_mem_nil, or_false] at hdomain
  obtain rfl | rfl | rfl | rfl := hdomain
  · exact mem_singleton.mp hc
  · obtain ⟨package, core, hpackage, hcore, rfl⟩ := exists_core hn
    obtain ⟨thread, -, rfl⟩ := mem_cpusOf_core.mp hc
    exact cpuDomain_core hpackage hcore
  · obtain ⟨thread, core, -, hcore, rfl⟩ := mem_cpusOf_package.mp hc
    exact cpuDomain_package hn hcore
  · obtain rfl := Nat.lt_one_iff.mp hn
    rfl

theorem cpuDomain_of_isNested (hdomain : domain ∈ cpuNestedDomains)
    (h : topo.IsNested .cpu domain i c) : topo.IsIdx domain i ∧ topo.cpuDomain domain c = i := by
  obtain ⟨cpus, hcpus, -, cpu, hcpu, hidx⟩ := h.elim
  have hi := (domainCpus_ok hcpus).1
  rw [domainCpus_eq (hasCpus_of_mem hdomain).1 hi] at hcpus
  obtain rfl := Except.ok.inj hcpus
  rw [domainIdx_eq rfl (isIdx_of_domainIdx hidx)] at hidx
  obtain rfl : cpu = c := Except.ok.inj hidx
  exact ⟨hi, cpuDomain_of_mem hdomain hi hcpu⟩

end Domain

/-! ### The policies of a domain -/

section Paths

variable {policies : List (List Char × List CInt)} {d : CpufreqSysfsDriver} {name attr : String}
  {path : List Char × String} {resource : List Char}

theorem resourceByCpu_eq (resources : List (List Char × List CInt)) (c : ℤ) :
    (resourcesByCpuFromCpusByResource resources).lookup c =
      (resources.flatMap fun it => it.2.map fun cpu => (cpu.1, it.1)).lookup c := by
  have hfold : resourcesByCpuFromCpusByResource resources =
      (resources.flatMap fun it => it.2.map fun cpu => (cpu.1, it.1)).foldl
        (fun map it => emplace it.1 it.2 map) [] := by
    rw [foldl_flatMap]
    simp only [foldl_map]
    rfl
  rw [hfold, lookup_foldl_emplace]
  rfl

theorem exists_of_lookup {resources : List (List Char × List CInt)}
    (h : (resourcesByCpuFromCpusByResource resources).lookup c = some resource) :
    ∃ cpu : CInt, cpu.1 = c ∧ ∃ p ∈ resources, p.1 = resource ∧ cpu ∈ p.2 := by
  rw [resourceByCpu_eq, lookup_eq_some_iff] at h
  obtain ⟨before, after, heq, -⟩ := h
  have hmem : (c, resource) ∈ resources.flatMap fun it => it.2.map fun cpu => (cpu.1, it.1) := by
    rw [heq]
    simp
  simp only [mem_flatMap, mem_map, Prod.mk.injEq] at hmem
  obtain ⟨p, hp, cpu, hcpu, rfl, rfl⟩ := hmem
  exact ⟨cpu, rfl, p, hp, rfl, hcpu⟩

theorem isSome_lookup {resources : List (List Char × List CInt)} {p : List Char × List CInt}
    {cpu : CInt} (hp : p ∈ resources) (hcpu : cpu ∈ p.2) :
    ((resourcesByCpuFromCpusByResource resources).lookup cpu.1).isSome = true := by
  rw [resourceByCpu_eq, lookup_isSome_iff]
  refine ⟨(cpu.1, p.1), ?_, by simp⟩
  simp only [mem_flatMap, mem_map, Prod.mk.injEq]
  exact ⟨p, hp, cpu, hcpu, rfl, rfl⟩

theorem attributePath_eq_ok (hname : cpufreqProperties.lookup name = some attr) :
    d.attributePath name i = .ok path ↔ ∃ idx, d.topo.domainNested .cpu d.domain i = .ok idx ∧
      (idx.toFinset.sort (· ≤ ·)).findSome? (fun cpuIdx => d.resourceByCpu.lookup cpuIdx) =
        some path.1 ∧ path.2 = attr := by
  obtain ⟨resource, attr'⟩ := path
  unfold attributePath
  cases d.topo.domainNested .cpu d.domain i with
  | error e => simp [bind, Except.bind]
  | ok idx =>
    rw [hname]
    simp only [bind, Except.bind, Except.ok.injEq, exists_eq_left']
    generalize (idx.toFinset.sort (· ≤ ·)).findSome? (fun cpuIdx => d.resourceByCpu.lookup cpuIdx) =
      found
    cases found with
    | none => simp
    | some resource' => simp [pure, Except.pure, eq_comm]

/-- The settings reach the policies: each has its CPUs, the domain is the finest in which each lies in
one index, and the paths of the indices are those of all policies. -/
structure Reaches (d : CpufreqSysfsDriver) (policies : List (List Char × List CInt)) : Prop where
  loaded : ∀ p, p ∈ d.cpusByResource ↔ p ∈ policies
  domain : d.domain = finestDomain d.topo policies
  reach : ∀ name attr, cpufreqProperties.lookup name = some attr → ∀ p ∈ policies,
    ∃ i, d.topo.IsIdx d.domain i ∧ d.attributePath name i = .ok (p.1, attr)
  own : ∀ name attr, cpufreqProperties.lookup name = some attr → ∀ i path,
    d.attributePath name i = .ok path → ∃ p ∈ policies, path = (p.1, attr)

/-- In the finest domain, each policy has an index of its own, and a CPU among those of the index. -/
def OneEach (topo : PlatformTopoImp) (policies : List (List Char × List CInt)) : Prop :=
  let domain := finestDomain topo policies
  (∀ p ∈ policies, ∃ cpu ∈ p.2,
      topo.IsNested .cpu domain (topo.cpuDomain domain cpu.1) cpu.1) ∧
    ∀ p ∈ policies, ∀ p' ∈ policies, ∀ cpu ∈ p.2, ∀ cpu' ∈ p'.2,
      topo.cpuDomain domain cpu.1 = topo.cpuDomain domain cpu'.1 → p = p'

theorem finestDomain_mem (topo : PlatformTopoImp) (policies : List (List Char × List CInt)) :
    finestDomain topo policies ∈ cpuNestedDomains :=
  mem_of_find?_eq_some (find?_eq_finestDomain topo policies)

theorem withinOne_finestDomain {p : List Char × List CInt} (hp : p ∈ policies) :
    WithinOne topo (finestDomain topo policies) p.2 := by
  have hfind := find?_some (find?_eq_finestDomain topo policies)
  exact of_decide_eq_true hfind p hp

/-- What a driver does that has loaded the policies. -/
theorem reaches_iff_oneEach (h : Layout topo directory policies)
    (hloaded : ∀ p, p ∈ d.cpusByResource ↔ p ∈ policies)
    (hresource : d.resourceByCpu = resourcesByCpuFromCpusByResource d.cpusByResource)
    (htopo : d.topo = topo) (hdomain : d.domain = finestDomain topo policies) :
    d.Reaches policies ↔ OneEach topo policies := by
  subst htopo
  have hmem := finestDomain_mem d.topo policies
  have hinj : ∀ p ∈ policies, ∀ p' ∈ policies, p.1 = p'.1 → p = p' := fun p hp p' hp' heq =>
    inj_on_of_nodup_map h.names hp hp' heq
  -- the path of an index is that of a policy with a CPU of the index
  have hpath : ∀ name attr, cpufreqProperties.lookup name = some attr → ∀ i path,
      d.attributePath name i = .ok path → ∃ p ∈ policies, path = (p.1, attr) ∧
        ∃ cpu ∈ p.2, d.topo.IsNested .cpu (finestDomain d.topo policies) i cpu.1 := by
    intro name attr hname i path hok
    obtain ⟨idx, hidx, hfind, hattr⟩ := (attributePath_eq_ok hname).mp hok
    obtain ⟨c, hc, hlookup⟩ := exists_of_findSome?_eq_some hfind
    rw [hresource] at hlookup
    obtain ⟨cpu, rfl, p, hp, hresource', hcpu⟩ := exists_of_lookup hlookup
    refine ⟨p, (hloaded p).mp hp, Prod.ext hresource'.symm hattr, cpu, hcpu, idx, ?_, ?_⟩
    · rw [← hdomain]
      exact hidx
    · exact mem_toFinset.mp ((Finset.mem_sort _).mp hc)
  constructor
  · intro hreaches
    have hname : cpufreqProperties.lookup "CPUFREQ::SCALING_MAX_FREQ" = some "scaling_max_freq" := by
      decide
    have hindex : ∀ p ∈ policies, ∃ i, d.attributePath "CPUFREQ::SCALING_MAX_FREQ" i =
        .ok (p.1, "scaling_max_freq") ∧ ∃ cpu ∈ p.2,
          d.topo.IsNested .cpu (finestDomain d.topo policies) i cpu.1 := by
      intro p hp
      obtain ⟨i, -, hok⟩ := hreaches.reach _ _ hname p hp
      obtain ⟨p', hp', heq, hcpu⟩ := hpath _ _ hname i _ hok
      have hsame : p = p' := hinj p hp p' hp' (Prod.mk.inj heq).1
      exact ⟨i, hok, hsame ▸ hcpu⟩
    refine ⟨fun p hp => ?_, fun p hp p' hp' cpu hcpu cpu' hcpu' heq => ?_⟩
    · obtain ⟨i, -, cpu, hcpu, hnested⟩ := hindex p hp
      refine ⟨cpu, hcpu, ?_⟩
      rw [(cpuDomain_of_isNested hmem hnested).2]
      exact hnested
    · obtain ⟨i, hok, c, hc, hnested⟩ := hindex p hp
      obtain ⟨i', hok', c', hc', hnested'⟩ := hindex p' hp'
      have hsame : i = i' :=
        calc i = d.topo.cpuDomain _ c.1 := (cpuDomain_of_isNested hmem hnested).2.symm
          _ = d.topo.cpuDomain _ cpu.1 := withinOne_finestDomain hp c hc cpu hcpu
          _ = d.topo.cpuDomain _ cpu'.1 := heq
          _ = d.topo.cpuDomain _ c'.1 := withinOne_finestDomain hp' cpu' hcpu' c' hc'
          _ = i' := (cpuDomain_of_isNested hmem hnested').2
      subst hsame
      exact hinj p hp p' hp' (Prod.mk.inj (Except.ok.inj (hok.symm.trans hok'))).1
  · rintro ⟨hlisted, hone⟩
    refine ⟨hloaded, hdomain, fun name attr hname p hp => ?_, fun name attr hname i path hok => ?_⟩
    · obtain ⟨cpu, hcpu, hnested⟩ := hlisted p hp
      obtain ⟨idx, hidx, hin⟩ := hnested
      have hfound : ((idx.toFinset.sort (· ≤ ·)).findSome? fun cpuIdx =>
          d.resourceByCpu.lookup cpuIdx).isSome = true := by
        refine findSome?_isSome_iff.mpr ⟨cpu.1, ?_, ?_⟩
        · exact (Finset.mem_sort _).mpr (mem_toFinset.mpr hin)
        · rw [hresource]
          exact isSome_lookup ((hloaded p).mpr hp) hcpu
      obtain ⟨resource, hresource'⟩ := Option.isSome_iff_exists.mp hfound
      rw [← hdomain] at hidx
      have hok : d.attributePath name _ = .ok (resource, attr) :=
        (attributePath_eq_ok hname).mpr ⟨idx, hidx, hresource', rfl⟩
      obtain ⟨p', hp', heq, cpu', hcpu', hnested'⟩ := hpath name attr hname _ _ hok
      obtain rfl := hone p hp p' hp' cpu hcpu cpu' hcpu' (by
        rw [(cpuDomain_of_isNested hmem hnested').2, hdomain])
      rw [heq] at hok
      refine ⟨_, ?_, hok⟩
      rw [hdomain]
      exact (cpuDomain_of_isNested hmem ⟨idx, hdomain ▸ hidx, hin⟩).1
    · obtain ⟨p, hp, heq, -⟩ := hpath name attr hname i path hok
      exact ⟨p, hp, heq⟩

theorem eq_of_subset {loaded : List (List Char × List CInt)}
    (hnames : loaded.map Prod.fst = policies.map Prod.fst) (hnodup : (policies.map Prod.fst).Nodup)
    (hsub : ∀ p ∈ loaded, p ∈ policies) : loaded = policies := by
  have hlength : loaded.length = policies.length := by
    simpa using congrArg List.length hnames
  refine ext_getElem hlength fun i hi hi' => ?_
  have hfst : loaded[i].1 = policies[i].1 := by
    have hget := congrArg (fun l : List (List Char) => l[i]?) hnames
    simpa [getElem?_eq_getElem hi, getElem?_eq_getElem hi'] using hget
  exact inj_on_of_nodup_map hnodup (hsub _ (getElem_mem hi)) (getElem_mem hi') hfst

/-- **The settings reach the policies of a layout**, or the constructor refuses it, exactly when a text
does not fit into the buffer, or no text leaves a space beyond the end of a later one and each policy
has an index of its own. -/
theorem reaches_iff (h : Layout topo directory policies) :
    (∀ d, make topo directory = .ok d → d.Reaches policies) ↔
      ¬ Fits policies ∨
        LeavesNoSpace [] (policies.map fun p => affectedCpusText p.2) ∧ OneEach topo policies := by
  by_cases hfits : Fits policies
  · obtain ⟨loaded, hload, hnames, hin, hiff⟩ := load_ok [] hfits h.files h.nonempty
      h.existing ⟨not_mem_nil, ioBufferSize, rfl⟩ (by simp [TailCpus])
    have hnodup : (loaded.map Prod.fst).Nodup := hnames ▸ h.names
    have hmem : ∀ p, p ∈ loaded.foldl (fun map it => emplace it.1 it.2 map) [] ↔ p ∈ loaded := by
      intro p
      rw [mem_foldl_emplace hnodup fun _ _ => rfl]
      simp
    rw [nil_append] at hload
    generalize loaded.foldl (fun map it => emplace it.1 it.2 map) [] = map at hload hmem
    have hdomain := @chooseDomain_eq topo map _ (List.Subset.refl _)
      fun p hp => hin p ((hmem p).mp hp)
    rw [find?_eq_finestDomain, Option.getD_some] at hdomain
    have hmake : make topo directory = .ok ⟨map, resourcesByCpuFromCpusByResource map,
        finestDomain topo map, topo⟩ := by
      rw [make, hload]
      change (chooseDomain topo map cpuNestedDomains .cpu >>= _) = _
      rw [hdomain]
      rfl
    rw [← hiff, or_iff_right (not_not.mpr hfits)]
    constructor
    · intro hall
      have hreaches := hall _ hmake
      have heq : loaded = policies := eq_of_subset hnames h.names fun p hp =>
        (hreaches.loaded p).mp ((hmem p).mpr hp)
      exact ⟨heq, (reaches_iff_oneEach h hreaches.loaded rfl rfl hreaches.domain).mp hreaches⟩
    · rintro ⟨rfl, hone⟩ d hd
      obtain rfl := Except.ok.inj (hmake.symm.trans hd)
      have hsame : finestDomain topo map = finestDomain topo loaded := by
        unfold finestDomain
        congr 2
        funext domain
        simp only [hmem]
      exact (reaches_iff_oneEach h hmem rfl rfl hsame).mpr hone
  · obtain ⟨e, he⟩ := load_error (List.replicate ioBufferSize '\x00') [] hfits h.files
    refine iff_of_true (fun d hd => ?_) (.inl hfits)
    rw [make, he] at hd
    cases hd

end Paths

/-- A CPU. -/
def cpu (n : Fin 10) : CInt := ⟨n.1, by omega, by omega⟩

/-- The name of a policy. -/
def policy (digit : Char) : List Char := ['p', 'o', 'l', 'i', 'c', 'y', digit]

/-- A directory with the files of some policies. -/
def filesOf (policies : List (List Char × List CInt)) : List CpufreqEntry :=
  ⟨['.'], none⟩ :: policies.map fun p => ⟨p.1, some (affectedCpusText p.2)⟩

/-- One package of six cores. -/
def sixCores : PlatformTopoImp := .make 1 6 1 [] [] []

/-- A policy for each of two CPUs. -/
def twoCpus : List (List Char × List CInt) := [(policy '0', [cpu 0]), (policy '1', [cpu 1])]

theorem reaches_twoCpus :
    ∃ d, make sixCores (filesOf twoCpus) = .ok d ∧ d.Reaches twoCpus := by
  have hmake : make sixCores (filesOf twoCpus) = .ok ⟨twoCpus,
      resourcesByCpuFromCpusByResource twoCpus, .cpu, sixCores⟩ := by
    rfl
  have hexisting : ∀ p ∈ twoCpus, ∀ cpu ∈ p.2, 0 ≤ cpu.1 ∧ cpu.1 < (sixCores.numDomain .cpu : ℤ) := by
    decide
  have hdomain : finestDomain sixCores twoCpus = .cpu := by decide
  refine ⟨_, hmake, (reaches_iff ⟨rfl, by decide, by decide, hexisting, by decide⟩).mpr
    (.inr ⟨⟨by decide, by decide, trivial⟩, ?_⟩) _ hmake⟩
  rw [OneEach, hdomain]
  refine ⟨fun p hp => ?_, by decide⟩
  have hone : ∃ cpu ∈ p.2, p.2 = [cpu] ∧ 0 ≤ cpu.1 ∧ cpu.1 < (sixCores.numDomain .cpu : ℤ) := by
    revert p
    decide
  obtain ⟨cpu, hcpu, -, hidx⟩ := hone
  exact ⟨cpu, hcpu, PlatformTopoImp.isNested_of rfl (PlatformTopoImp.domainCpus_eq rfl hidx) rfl
    (fun c hc => mem_singleton.mp hc ▸ hidx) (mem_singleton.mpr rfl)⟩

/-- Two policies of different lengths. -/
def mixed : List (List Char × List CInt) :=
  [(policy '0', [cpu 0, cpu 1, cpu 2, cpu 3]), (policy '4', [cpu 4, cpu 5])]

/-- What is loaded: the first text has left its end in the buffer. -/
def loadedMixed : List (List Char × List CInt) :=
  [(policy '0', [cpu 0, cpu 1, cpu 2, cpu 3]), (policy '4', [cpu 4, cpu 5, cpu 3])]

theorem not_reaches :
    ¬ ∀ (topo : PlatformTopoImp) (directory : List CpufreqEntry)
      (policies : List (List Char × List CInt)), Layout topo directory policies →
        ∀ d, make topo directory = .ok d → d.Reaches policies := by
  intro h
  have hexisting : ∀ p ∈ mixed, ∀ cpu ∈ p.2, 0 ≤ cpu.1 ∧ cpu.1 < (sixCores.numDomain .cpu : ℤ) := by
    decide
  have hmake : make sixCores (filesOf mixed) = .ok ⟨loadedMixed,
      resourcesByCpuFromCpusByResource loadedMixed, .package, sixCores⟩ := by
    rfl
  have hreaches := h _ _ _ ⟨rfl, by decide, by decide, hexisting, by decide⟩ _ hmake
  exact absurd ((hreaches.loaded (policy '4', [cpu 4, cpu 5, cpu 3])).mp (by decide)) (by decide)

end CpufreqSysfsDriver

end Geopm.Pio
