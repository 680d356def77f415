import Geopm.Pio.CpufreqSysfsDriver

/-!
# `UncoreFreqSysfsDriver`

The driver of the uncore frequency has a directory for the limits of a package, and directories for
its domains that only a privileged process can tell apart.

* `loadControlDirs`, `loadStatusDirs` : the directories of the packages, from a listing in any order;
* `UncoreFreqSysfsDriver.attributePath` : the file of a signal or a control;
* `firstLowest` : the directory that the maps hold for the status of a package;
* `attributePath_right_iff` : the listings for which it is the right file, whatever their order.
-/

namespace Geopm.Pio

open Text
open List

/-- An entry of the uncore directory, with the texts of its identity files that can be read. -/
structure UncoreEntry where
  name : List Char
  packageId : Option (List Char) := none
  domainId : Option (List Char) := none

def tryReadInt (content : Option (List Char)) : Option ℤ := (content.bind stoi).map (·.1)

/-- A `%d` of `sscanf`: the number, which is read as a `long` and stored as an `int`, and the rest. -/
def scanInt (text : List Char) : Option (ℤ × List Char) :=
  let signed := sign (text.dropWhile isSpace)
  let digits := signed.2.takeWhile Char.isDigit
  if digits = [] then none
  else
    let n := signed.1 * (Nat.ofDigitChars 10 digits 0 : ℕ)
    some ((max (-2 ^ 63) (min n (2 ^ 63 - 1))).bmod (2 ^ 32), signed.2.dropWhile Char.isDigit)

/-- The package of a name that `package_%d_die_%d` matches; what follows is ignored. -/
def controlPackage (name : List Char) : Option ℤ := do
  let text ← name.dropPrefix? ['p', 'a', 'c', 'k', 'a', 'g', 'e', '_']
  let (packageIdx, text) ← scanInt text
  let text ← text.dropPrefix? ['_', 'd', 'i', 'e', '_']
  let _ ← scanInt text
  pure packageIdx

def loadControlDirs (entries : List UncoreEntry) : List (ℤ × List Char) :=
  entries.foldl (fun result entry =>
    match controlPackage entry.name with
    | none => result
    | some packageIdx => emplace packageIdx entry.name result) []

/-- The package and the domain of an `uncore` directory whose identity files can be read. -/
def UncoreEntry.domain (entry : UncoreEntry) : Option (ℤ × ℤ) :=
  if ¬ ['u', 'n', 'c', 'o', 'r', 'e'] <+: entry.name then none
  else do pure (← tryReadInt entry.packageId, ← tryReadInt entry.domainId)

/-- The maps of `load_status_dirs`: the directory of a package, and the domain that it is of. -/
structure StatusDirs where
  result : List (ℤ × List Char) := []
  bestDomainByPackage : List (ℤ × ℤ) := []

/-- The body of the loop of `load_status_dirs`. -/
def StatusDirs.add (s : StatusDirs) (entry : UncoreEntry) : StatusDirs :=
  match entry.domain with
  | none => s
  | some (packageIdx, domainIdx) =>
    if ∀ best ∈ s.bestDomainByPackage.lookup packageIdx, domainIdx < best then
      ⟨SortedMap.assign packageIdx entry.name s.result,
        SortedMap.assign packageIdx domainIdx s.bestDomainByPackage⟩
    else s

def loadStatusDirs (entries : List UncoreEntry) : List (ℤ × List Char) :=
  (entries.foldl StatusDirs.add {}).result

/-- The attribute that is served from the `uncore` directories. -/
def uncoreStatusAttribute : String := "current_freq_khz"

/-- The names of the signals and controls, with their attributes. -/
def uncoreProperties : List (String × String) :=
  [("UNCORE::CURRENT_FREQ_KHZ", "current_freq_khz"),
    ("UNCORE::INITIAL_MAX_FREQ_KHZ", "initial_max_freq_khz"),
    ("UNCORE::INITIAL_MIN_FREQ_KHZ", "initial_min_freq_khz"),
    ("UNCORE::MAX_FREQ_KHZ", "max_freq_khz"), ("UNCORE::MIN_FREQ_KHZ", "min_freq_khz")]

/-- The members of `UncoreFreqSysfsDriver`. -/
structure UncoreFreqSysfsDriver where
  controlDirByPackage : List (ℤ × List Char)
  statusDirByPackage : List (ℤ × List Char)

namespace UncoreFreqSysfsDriver

/-- The constructor, from the listing of the directory. -/
def make (entries : List UncoreEntry) : UncoreFreqSysfsDriver :=
  ⟨loadControlDirs entries, loadStatusDirs entries⟩

/-- `attribute_path`: the directory and the attribute that make up the path. -/
def attributePath (d : UncoreFreqSysfsDriver) (name : String) (domainIdx : ℤ) :
    Except Exception (List Char × String) :=
  match uncoreProperties.lookup name with
  | none =>
    .error ⟨"UncoreFreqSysfsDriver::attribute_path(): No such signal: " ++ name, [], .runtime⟩
  | some attr =>
    let dirByPackage :=
      if attr = uncoreStatusAttribute then d.statusDirByPackage else d.controlDirByPackage
    match dirByPackage.lookup domainIdx with
    | none =>
      .error ⟨"UncoreFreqSysfsDriver::attribute_path(): No sysfs directory for domain index % and " ++
        "signal: " ++ name, [domainIdx], .runtime⟩
    | some dir => .ok (dir, attr)

end UncoreFreqSysfsDriver

open UncoreFreqSysfsDriver

/-! ### The right file -/

/-- The directories `package_P_die_D` of a package, in the order of the listing. -/
def packageDirs (package : ℤ) (entries : List UncoreEntry) : List (List Char) :=
  (entries.filter fun entry => controlPackage entry.name = some package).map (·.name)

/-- The readable `uncore` directories of a package, with their domains. -/
def uncoreDirs (package : ℤ) (entries : List UncoreEntry) : List (ℤ × List Char) :=
  entries.filterMap fun entry =>
    match entry.domain with
    | none => none
    | some (packageIdx, domainIdx) =>
      if packageIdx = package then some (domainIdx, entry.name) else none

/-- A directory of the lowest domain. -/
def Lowest (dirs : List (ℤ × List Char)) (dir : ℤ × List Char) : Prop :=
  dir ∈ dirs ∧ ∀ other ∈ dirs, dir.1 ≤ other.1

/-- The path does not depend on the order of the listing; it is that of the only directory of the
package, or for the status that of a readable one with the lowest domain. -/
structure Right (entries : List UncoreEntry) (name : String) (package : ℤ) : Prop where
  independent : ∀ other, other.Perm entries →
    (make other).attributePath name package = (make entries).attributePath name package
  control : ∀ dir attr, attr ≠ uncoreStatusAttribute →
    (make entries).attributePath name package = .ok (dir, attr) →
      packageDirs package entries = [dir]
  status : ∀ dir, (make entries).attributePath name package = .ok (dir, uncoreStatusAttribute) →
    ∃ domain, Lowest (uncoreDirs package entries) (domain, dir)

/-- The package has at most one directory, or for the status at most one with the lowest domain. -/
def OneChoice (entries : List UncoreEntry) (name : String) (package : ℤ) : Prop :=
  ∀ attr ∈ uncoreProperties.lookup name,
    if attr = uncoreStatusAttribute then
      ∀ a b, Lowest (uncoreDirs package entries) a → Lowest (uncoreDirs package entries) b → a = b
    else (packageDirs package entries).length ≤ 1

section Lowest

variable {dirs : List (ℤ × List Char)} {dir : ℤ × List Char}

/-- The first directory of the lowest domain. -/
def firstLowest (dirs : List (ℤ × List Char)) : Option (ℤ × List Char) :=
  dirs.foldl (fun best dir => if ∀ b ∈ best, dir.1 < b.1 then some dir else best) none

theorem firstLowest_append_singleton (dirs : List (ℤ × List Char)) (dir : ℤ × List Char) :
    firstLowest (dirs ++ [dir]) =
      if ∀ b ∈ firstLowest dirs, dir.1 < b.1 then some dir else firstLowest dirs := by
  rw [firstLowest, List.foldl_append, foldl_cons, foldl_nil, ← firstLowest]

theorem lowest_firstLowest (dirs : List (ℤ × List Char)) :
    (firstLowest dirs).elim (dirs = []) (Lowest dirs) := by
  induction dirs using List.reverseRecOn with
  | nil => rfl
  | append_singleton dirs dir ih =>
    rw [firstLowest_append_singleton]
    cases hbest : firstLowest dirs with
    | none =>
      rw [hbest] at ih
      subst ih
      simp [Lowest]
    | some best =>
      rw [hbest] at ih
      obtain ⟨hmem, hle⟩ := ih
      simp only [Option.mem_some_iff, forall_eq']
      split_ifs with hlt
      · refine ⟨by simp, fun other hother => ?_⟩
        obtain hother | hother := mem_append.mp hother
        · exact hlt.le.trans (hle other hother)
        · rw [mem_singleton.mp hother]
      · refine ⟨mem_append_left _ hmem, fun other hother => ?_⟩
        obtain hother | hother := mem_append.mp hother
        · exact hle other hother
        · rw [mem_singleton.mp hother]
          exact not_lt.mp hlt

theorem firstLowest_cons (h : ∀ other ∈ dirs, dir.1 ≤ other.1) :
    firstLowest (dir :: dirs) = some dir := by
  induction dirs using List.reverseRecOn with
  | nil => rfl
  | append_singleton dirs last ih =>
    rw [← cons_append, firstLowest_append_singleton,
      ih fun other hother => h other (mem_append_left _ hother)]
    exact if_neg fun hlt => (hlt dir rfl).not_ge (h last (by simp))

/-- The only directory of the lowest domain comes first in every order. -/
theorem firstLowest_perm (hunique : ∀ a b, Lowest dirs a → Lowest dirs b → a = b)
    {other : List (ℤ × List Char)} (h : other.Perm dirs) : firstLowest other = firstLowest dirs := by
  have hdirs := lowest_firstLowest dirs
  have hother := lowest_firstLowest other
  cases hfirst : firstLowest dirs with
  | none =>
    rw [hfirst] at hdirs
    rw [(hdirs ▸ h : other.Perm []).eq_nil]
    rfl
  | some dir =>
    rw [hfirst] at hdirs
    cases hfirst' : firstLowest other with
    | none =>
      rw [hfirst'] at hother
      exact absurd (h.mem_iff.mpr hdirs.1) (hother ▸ not_mem_nil)
    | some dir' =>
      rw [hfirst'] at hother
      have hlowest : Lowest dirs dir' :=
        ⟨h.mem_iff.mp hother.1, fun o ho => hother.2 o (h.mem_iff.mpr ho)⟩
      rw [hunique dir' dir hlowest hdirs]

end Lowest

section Load

variable {entries other : List UncoreEntry} (package : ℤ)

theorem lookup_loadControlDirs (entries : List UncoreEntry) :
    (loadControlDirs entries).lookup package = (packageDirs package entries).head? := by
  induction entries using List.reverseRecOn with
  | nil => rfl
  | append_singleton entries entry ih =>
    rw [loadControlDirs, List.foldl_append, foldl_cons, foldl_nil, ← loadControlDirs,
      packageDirs, filter_append, map_append, ← packageDirs, head?_append, ← ih]
    cases hpackage : controlPackage entry.name with
    | none => simp [hpackage]
    | some packageIdx =>
      rw [lookup_emplace]
      by_cases heq : package = packageIdx
      · simp [hpackage, heq]
      · simp [hpackage, heq, Ne.symm heq]

theorem lookup_add (entries : List UncoreEntry) :
    (loadStatusDirs entries).lookup package =
        (firstLowest (uncoreDirs package entries)).map Prod.snd ∧
      (entries.foldl StatusDirs.add {}).bestDomainByPackage.lookup package =
        (firstLowest (uncoreDirs package entries)).map Prod.fst := by
  unfold loadStatusDirs
  induction entries using List.reverseRecOn with
  | nil => exact ⟨rfl, rfl⟩
  | append_singleton entries entry ih =>
    rw [List.foldl_append, foldl_cons, foldl_nil, uncoreDirs, filterMap_append,
      ← uncoreDirs]
    generalize entries.foldl StatusDirs.add {} = s at ih ⊢
    unfold StatusDirs.add
    cases hdomain : entry.domain with
    | none => simpa [hdomain] using ih
    | some domain =>
      obtain ⟨packageIdx, domainIdx⟩ := domain
      by_cases heq : packageIdx = package
      · subst heq
        simp only [hdomain, filterMap_cons, filterMap_nil, if_true]
        rw [firstLowest_append_singleton, ih.2]
        simp only [Option.mem_def, Option.map_eq_some_iff, forall_exists_index, and_imp,
          forall_apply_eq_imp_iff₂]
        split_ifs
        · simp [SortedMap.lookup_assign]
        · exact ih
      · simp only [hdomain, filterMap_cons, filterMap_nil, if_neg heq, append_nil]
        split_ifs
        · simpa [SortedMap.lookup_assign, Ne.symm heq] using ih
        · exact ih

theorem perm_uncoreDirs (h : other.Perm entries) :
    (uncoreDirs package other).Perm (uncoreDirs package entries) := h.filterMap _

theorem perm_packageDirs (h : other.Perm entries) :
    (packageDirs package other).Perm (packageDirs package entries) := (h.filter _).map _

/-- Any directory of the lowest domain comes first in some order. -/
theorem exists_perm {dir : ℤ × List Char} (h : Lowest (uncoreDirs package entries) dir) :
    ∃ other, other.Perm entries ∧ firstLowest (uncoreDirs package other) = some dir := by
  obtain ⟨entry, hentry, hdir⟩ := mem_filterMap.mp h.1
  obtain ⟨before, after, rfl⟩ := append_of_mem hentry
  have hperm : (entry :: (before ++ after)).Perm (before ++ entry :: after) :=
    perm_middle.symm
  have hcons : uncoreDirs package (entry :: (before ++ after)) =
      dir :: uncoreDirs package (before ++ after) := filterMap_cons_some hdir
  refine ⟨_, hperm, ?_⟩
  rw [hcons]
  refine firstLowest_cons fun other hother => h.2 other ?_
  exact (perm_uncoreDirs package hperm).mem_iff.mp (hcons ▸ mem_cons_of_mem _ hother)

end Load

/-- The directory that is found for an attribute. -/
def found (attr : String) (package : ℤ) (entries : List UncoreEntry) : Option (List Char) :=
  (if attr = uncoreStatusAttribute then loadStatusDirs entries
    else loadControlDirs entries).lookup package

section Found

variable {attr name : String} (hattr : attr ∈ uncoreProperties.lookup name)
  (entries : List UncoreEntry) (package : ℤ)
include hattr

theorem exists_attributePath_eq : ∃ e, ∀ entries, (make entries).attributePath name package =
    (found attr package entries).elim (.error e) fun dir => .ok (dir, attr) := by
  refine ⟨⟨"UncoreFreqSysfsDriver::attribute_path(): No sysfs directory for domain index % and " ++
    "signal: " ++ name, [package], .runtime⟩, fun entries => ?_⟩
  unfold attributePath found make
  rw [Option.mem_def.mp hattr]
  dsimp only
  generalize List.lookup package _ = dir?
  cases dir? <;> rfl

theorem right_iff_found : Right entries name package ↔
    (∀ other, other.Perm entries → found attr package other = found attr package entries) ∧
    (∀ dir ∈ found attr package entries, attr ≠ uncoreStatusAttribute →
      packageDirs package entries = [dir]) ∧
    ∀ dir ∈ found attr package entries, attr = uncoreStatusAttribute →
      ∃ domain, Lowest (uncoreDirs package entries) (domain, dir) := by
  obtain ⟨e, hpath⟩ := exists_attributePath_eq hattr package
  have hinjective : Function.Injective fun dir : Option (List Char) =>
      dir.elim (Except.error e) fun dir => .ok (dir, attr) := by
    rintro (_ | a) (_ | b) h <;> cases h <;> rfl
  have hok {dir : List Char} {attr' : String} :
      (make entries).attributePath name package = .ok (dir, attr') ↔
        dir ∈ found attr package entries ∧ attr = attr' := by
    rw [hpath]
    cases found attr package entries <;> simp
  constructor
  · rintro ⟨hindependent, hcontrol, hstatus⟩
    refine ⟨fun other hperm => hinjective ?_, fun dir hdir hne => ?_, fun dir hdir heq => ?_⟩
    · simpa only [hpath] using hindependent other hperm
    · exact hcontrol dir attr hne (hok.mpr ⟨hdir, rfl⟩)
    · exact hstatus dir (hok.mpr ⟨hdir, heq⟩)
  · rintro ⟨hindependent, hcontrol, hstatus⟩
    refine ⟨fun other hperm => ?_, fun dir attr' hne h => ?_, fun dir h => ?_⟩
    · rw [hpath, hpath, hindependent other hperm]
    · obtain ⟨hdir, rfl⟩ := hok.mp h
      exact hcontrol dir hdir hne
    · exact hstatus dir (hok.mp h).1 (hok.mp h).2

end Found

theorem status_right_iff {name : String} (hattr : uncoreStatusAttribute ∈ uncoreProperties.lookup name)
    (entries : List UncoreEntry) (package : ℤ) : Right entries name package ↔
      ∀ a b, Lowest (uncoreDirs package entries) a → Lowest (uncoreDirs package entries) b →
        a = b := by
  have hfound (entries : List UncoreEntry) : found uncoreStatusAttribute package entries =
      (firstLowest (uncoreDirs package entries)).map Prod.snd := (lookup_add package entries).1
  rw [right_iff_found hattr]
  constructor
  · rintro ⟨hindependent, -, -⟩ a b ha hb
    have hfirst {dir : ℤ × List Char} (hdir : Lowest (uncoreDirs package entries) dir) :
        found uncoreStatusAttribute package entries = some dir.2 := by
      obtain ⟨other, hperm, hother⟩ := exists_perm package hdir
      rw [← hindependent other hperm, hfound, hother]
      rfl
    exact Prod.ext ((ha.2 b hb.1).antisymm (hb.2 a ha.1))
      (Option.some.inj ((hfirst ha).symm.trans (hfirst hb)))
  · intro hunique
    refine ⟨fun other hperm => ?_, fun _ _ hne => absurd rfl hne, fun dir hdir _ => ?_⟩
    · rw [hfound, hfound, firstLowest_perm hunique (perm_uncoreDirs package hperm)]
    · rw [hfound, Option.mem_def, Option.map_eq_some_iff] at hdir
      obtain ⟨lowest, hlowest, rfl⟩ := hdir
      have hfirst := lowest_firstLowest (uncoreDirs package entries)
      rw [hlowest] at hfirst
      exact ⟨lowest.1, hfirst⟩

theorem control_right_iff {attr name : String} (hattr : attr ∈ uncoreProperties.lookup name)
    (hne : attr ≠ uncoreStatusAttribute) (entries : List UncoreEntry) (package : ℤ) :
    Right entries name package ↔ (packageDirs package entries).length ≤ 1 := by
  have hfound (entries : List UncoreEntry) :
      found attr package entries = (packageDirs package entries).head? := by
    rw [← lookup_loadControlDirs, found, if_neg hne]
  rw [right_iff_found hattr, hfound]
  constructor
  · rintro ⟨-, honly, -⟩
    cases hdirs : packageDirs package entries with
    | nil => exact Nat.zero_le _
    | cons dir dirs =>
      rw [← hdirs, honly dir (by rw [hdirs]; rfl) hne]
      exact le_rfl
  · intro hlength
    refine ⟨fun other hperm => ?_, fun dir hdir _ => ?_, fun _ _ h => absurd h hne⟩
    · have hperm := perm_packageDirs package hperm
      rw [hfound]
      match hdirs : packageDirs package entries, hlength with
      | [], _ =>
        rw [hdirs] at hperm
        rw [hperm.eq_nil]
      | [dir], _ =>
        rw [hdirs] at hperm
        rw [perm_singleton.mp hperm]
    · match hdirs : packageDirs package entries, hlength with
      | [], _ => rw [hdirs] at hdir; cases hdir
      | [first], _ => rw [hdirs] at hdir; cases hdir; rfl

/-- **The layouts for which the path is right** : those with one directory to choose. -/
theorem attributePath_right_iff (entries : List UncoreEntry) (name : String) (package : ℤ) :
    Right entries name package ↔ OneChoice entries name package := by
  unfold OneChoice
  cases hattr : uncoreProperties.lookup name with
  | none =>
    have herror (entries : List UncoreEntry) : (make entries).attributePath name package =
        .error ⟨"UncoreFreqSysfsDriver::attribute_path(): No such signal: " ++ name, [],
          .runtime⟩ := by
      unfold attributePath
      rw [hattr]
    refine iff_of_true ⟨fun other _ => (herror other).trans (herror entries).symm, ?_, ?_⟩ nofun
    · intro dir attr _ h
      rw [herror] at h
      cases h
    · intro dir h
      rw [herror] at h
      cases h
  | some attr =>
    simp only [Option.mem_some_iff, forall_eq']
    split_ifs with hstatus
    · exact status_right_iff (hstatus ▸ hattr) entries package
    · exact control_right_iff hattr hstatus entries package

/-- A package with two dies: the limits of the one that is listed first are set. -/
theorem not_attributePath_right : ¬ ∀ entries name package, Right entries name package := by
  intro h
  have hindependent := (h [⟨"package_00_die_00".toList, none, none⟩,
    ⟨"package_00_die_01".toList, none, none⟩] "UNCORE::MAX_FREQ_KHZ" 0).independent _
      (List.Perm.swap _ _ [])
  exact absurd hindependent (by decide)

end Geopm.Pio
