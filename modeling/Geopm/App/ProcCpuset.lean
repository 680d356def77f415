import Geopm.Lib.HexText

/-!
# Reading the affinity mask of a process

`geopm_sched_proc_cpuset_helper` reads the CPUs that a process may run on from the text of its
status file.  The line of the mask has groups of 32 bits, the most significant group first; the
groups beyond the requested number of CPUs are skipped.

* `procCpusetHelper` : the loop over the lines, with `skipGroups` and `readGroups`;
* `mask` : the mask that the text has, as words of 32 bits, the least significant one first;
* `Scans` : when a number can be read from each of the groups;
* `procCpusetHelper_eq_ok_iff` : what the function returns;
* `procCpusetHelper_of_mask` : of a mask with enough groups it returns the words.
-/

namespace Geopm.Sched

open Text HexText
open List

/-! ### The function -/

/-- The errors that are told apart. -/
inductive Code
  | invalid
  | logic
  | runtime
  | enomem
  | einval
  | errno
  deriving DecidableEq

/-- `INT_MAX`. -/
def intMax : ℕ := 2147483647

/-- The number of words for a number of CPUs. -/
def numRead (numCpu : ℕ) : ℕ := numCpu / 32 + if numCpu % 32 ≠ 0 then 1 else 0

/-- The start of the line that has the mask. -/
def key : List Char := "Cpus_allowed:".toList

/-- A line as a C string, which ends at its first null character. -/
def cString (line : List Char) : List Char := line.takeWhile fun c => c ≠ '\x00'

/-- One beyond `strchr(ptr, ',')`. -/
def afterComma (ptr : List Char) : Option (List Char) :=
  match ptr.dropWhile fun c => c ≠ ',' with
  | [] => none
  | _ :: rest => some rest

/-- The loop that skips the leading groups. -/
def skipGroups : ℕ → List Char → Except Code (List Char)
  | 0, ptr => .ok ptr
  | count + 1, ptr =>
    match afterComma ptr with
    | none => .error .logic
    | some ptr => skipGroups count ptr

/-- `err`, `read_idx` and the words of `proc_cpuset`. -/
structure Scan where
  err : Option Code
  readIdx : ℤ
  cpuset : List ℕ

/-- The loop that reads the groups, from `read_idx` one below the first argument. -/
def readGroups : ℕ → List Char → List ℕ → Scan
  | 0, _, cpuset => ⟨none, -1, cpuset⟩
  | readIdx + 1, ptr, cpuset =>
    match scanHex ptr with
    | none => ⟨some .runtime, readIdx - 1, cpuset⟩
    | some word =>
      if readIdx = 0 then ⟨none, -1, cpuset.set readIdx word⟩
      else
        match afterComma ptr with
        | none => ⟨some .runtime, readIdx - 1, cpuset.set readIdx word⟩
        | some ptr => readGroups readIdx ptr (cpuset.set readIdx word)

/-- What is done on a line after the key; after an error both loops end at once. -/
def readLine (num : ℕ) (s : Scan) (linePtr : List Char) : Scan :=
  match s.err with
  | some e => ⟨some e, num - 1, s.cpuset⟩
  | none =>
    let numComma := linePtr.count ','
    match if num ≤ numComma then skipGroups (numComma + 1 - num) linePtr else .ok linePtr with
    | .error e => ⟨some e, num - 1, s.cpuset⟩
    | .ok linePtr => readGroups num linePtr s.cpuset

/-- What follows the key in a line. -/
def afterKey (line : List Char) : Option (List Char) :=
  if key.isPrefixOf (cString line) then some ((cString line).drop key.length) else none

/-- `geopm_sched_proc_cpuset_helper`: an error, or the words of `proc_cpuset`. -/
def procCpusetHelper (numCpu : ℕ) (cpuset : List ℕ) (text : List Char) : Except Code (List ℕ) :=
  if numCpu = intMax then .error .invalid
  else
    let s := (getlines text).foldl (fun s line =>
      match afterKey line with
      | some linePtr => readLine (numRead numCpu) s linePtr
      | none => s) ⟨none, 0, cpuset⟩
    if s.readIdx ≠ -1 then .error .runtime
    else
      match s.err with
      | some e => .error e
      | none => .ok s.cpuset

/-! ### The mask -/

/-- The lines of the mask, after the key. -/
def keyLines (text : List Char) : List (List Char) := (getlines text).filterMap afterKey

/-- The groups between the commas. -/
def groups (linePtr : List Char) : List (List Char) := linePtr.splitOn ','

/-- The mask of a text that has one line for it, as words of 32 bits, the least significant one
first. -/
def mask (text : List Char) : Option (List ℕ) :=
  match keyLines text with
  | [linePtr] =>
    if ∀ group ∈ groups linePtr, IsGroup group then
      some ((groups linePtr).map groupValue).reverse
    else none
  | _ => none

/-- Whether a CPU is in a mask. -/
def maskBit (words : List ℕ) (cpu : ℕ) : Bool := (words.getD (cpu / 32) 0).testBit (cpu % 32)

/-- The groups of a line that are read, as many as there are words. -/
def lastGroups (num : ℕ) (linePtr : List Char) : List (List Char) :=
  (groups linePtr).drop ((groups linePtr).length - num)

/-- A line has enough groups, and each of those that are read starts with a number. -/
def LineScans (num : ℕ) (linePtr : List Char) : Prop :=
  num ≤ (groups linePtr).length ∧ ∀ group ∈ lastGroups num linePtr, (scanHex group).isSome

instance (num : ℕ) (linePtr : List Char) : Decidable (LineScans num linePtr) :=
  inferInstanceAs (Decidable (_ ∧ _))

/-- There is a line of the mask, and each such line can be read. -/
def Scans (numCpu : ℕ) (text : List Char) : Prop :=
  keyLines text ≠ [] ∧ ∀ linePtr ∈ keyLines text, LineScans (numRead numCpu) linePtr

instance (numCpu : ℕ) (text : List Char) : Decidable (Scans numCpu text) :=
  inferInstanceAs (Decidable (_ ∧ _))

/-- The words that are read from a line. -/
def lineWords (num : ℕ) (linePtr : List Char) : List ℕ :=
  ((lastGroups num linePtr).map fun group => (scanHex group).getD 0).reverse

variable {num numCpu : ℕ} {linePtr text : List Char} {cpuset : List ℕ}

theorem numRead_pos (h : 0 < numCpu) : 0 < numRead numCpu := by
  simp only [numRead]
  split_ifs <;> omega

theorem le_numRead (numCpu : ℕ) : numCpu ≤ 32 * numRead numCpu := by
  simp only [numRead]
  split_ifs <;> omega

theorem numRead_le (numCpu : ℕ) : 32 * numRead numCpu ≤ numCpu + 31 := by
  simp only [numRead]
  split_ifs <;> omega

/-! ### Groups in a text -/

section Groups

variable {first second : List Char} {others : List (List Char)}

/-- Texts with commas between them. -/
def join (pieces : List (List Char)) : List Char := [','].intercalate pieces

@[simp] theorem join_singleton : join [first] = first := intercalate_singleton

@[simp] theorem join_cons_cons :
    join (first :: second :: others) = first ++ ',' :: join (second :: others) := by
  rw [join, intercalate_cons_cons]
  simp [join]

theorem join_groups (linePtr : List Char) : join (groups linePtr) = linePtr := intercalate_splitOn ','

theorem not_mem_groups {group : List Char} (h : group ∈ groups linePtr) : ',' ∉ group :=
  (mem_splitOn h).1

/-- There is one group more than there are commas. -/
theorem length_groups (linePtr : List Char) : (groups linePtr).length = linePtr.count ',' + 1 := by
  induction linePtr with
  | nil => rfl
  | cons c linePtr ih =>
    rw [groups, splitOn_cons_eq_if_modifyHead]
    by_cases hc : c = ','
    · subst hc
      simpa [groups] using ih
    · rw [if_neg (by simpa using hc), length_modifyHead, count_cons_of_ne hc]
      exact ih

theorem dropWhile_of_not_mem (h : ',' ∉ first) :
    first.dropWhile (fun c => c ≠ ',') = [] := by
  rw [dropWhile_eq_nil_iff]
  intro c hc
  simpa using fun heq : c = ',' => h (heq ▸ hc)

theorem afterComma_singleton (h : ',' ∉ first) : afterComma (join [first]) = none := by
  rw [join_singleton, afterComma, dropWhile_of_not_mem h]

theorem afterComma_cons_cons (h : ',' ∉ first) :
    afterComma (join (first :: second :: others)) = some (join (second :: others)) := by
  rw [join_cons_cons, afterComma, dropWhile_append, dropWhile_of_not_mem h]
  simp

theorem scanHex_join (first : List Char) (others : List (List Char)) :
    scanHex (join (first :: others)) = scanHex first := by
  cases others with
  | nil => rw [join_singleton]
  | cons second others => rw [join_cons_cons, scanHex_append]

variable {pieces : List (List Char)}

theorem skipGroups_join {count : ℕ}
    (hpieces : ∀ piece ∈ pieces, ',' ∉ piece) (hcount : count < pieces.length) :
    skipGroups count (join pieces) = .ok (join (pieces.drop count)) := by
  induction count generalizing pieces with
  | zero => rfl
  | succ count ih =>
    obtain _ | ⟨first, _ | ⟨second, others⟩⟩ := pieces
    · exact absurd hcount (Nat.not_lt_zero _)
    · simp at hcount
    · rw [skipGroups, afterComma_cons_cons (hpieces first mem_cons_self)]
      exact ih (fun piece hpiece => hpieces piece (mem_cons_of_mem _ hpiece))
        (Nat.lt_of_succ_lt_succ hcount)

theorem readGroups_join {front : List ℕ} (done : List ℕ)
    (hpieces : ∀ piece ∈ pieces, ',' ∉ piece) (hscan : ∀ piece ∈ pieces, (scanHex piece).isSome)
    (hne : pieces ≠ []) (hfront : front.length = pieces.length) :
    readGroups pieces.length (join pieces) (front ++ done) =
      ⟨none, -1, (pieces.map fun piece => (scanHex piece).getD 0).reverse ++ done⟩ := by
  induction pieces generalizing front done with
  | nil => exact absurd rfl hne
  | cons first others ih =>
    obtain ⟨word, hword⟩ := Option.isSome_iff_exists.mp (hscan first mem_cons_self)
    obtain ⟨front, last, rfl⟩ : ∃ front' last, front = front' ++ [last] :=
      ⟨front.dropLast, front.getLast (by rintro rfl; simp at hfront),
        (dropLast_concat_getLast _).symm⟩
    have hfront' : front.length = others.length := by simpa using hfront
    have hset : (front ++ [last] ++ done).set others.length word = front ++ (word :: done) := by
      rw [append_assoc, set_append_right _ _ hfront'.le, hfront', Nat.sub_self]
      rfl
    rw [length_cons, readGroups, scanHex_join, hword]
    dsimp only
    rw [hset]
    cases others with
    | nil =>
      obtain rfl := length_eq_zero_iff.mp hfront'
      simp [hword]
    | cons second others =>
      rw [if_neg (by simp), afterComma_cons_cons (hpieces first mem_cons_self)]
      dsimp only
      rw [ih _ (fun piece hpiece => hpieces piece (mem_cons_of_mem _ hpiece))
        (fun piece hpiece => hscan piece (mem_cons_of_mem _ hpiece)) (by simp) hfront']
      simp [hword]

theorem of_err_readGroups {cpuset : List ℕ} {count : ℕ}
    (hpieces : ∀ piece ∈ pieces, ',' ∉ piece) (hne : pieces ≠ [])
    (h : (readGroups count (join pieces) cpuset).err = none) :
    count ≤ pieces.length ∧ ∀ piece ∈ pieces.take count, (scanHex piece).isSome := by
  induction count generalizing pieces cpuset with
  | zero => simp
  | succ count ih =>
    obtain ⟨first, others, rfl⟩ := exists_cons_of_ne_nil hne
    rw [readGroups, scanHex_join] at h
    cases hword : scanHex first with
    | none => rw [hword] at h; cases h
    | some word =>
      rw [hword] at h
      dsimp only at h
      by_cases hcount : count = 0
      · subst hcount
        simp [hword]
      · rw [if_neg hcount] at h
        cases others with
        | nil =>
          rw [afterComma_singleton (hpieces first mem_cons_self)] at h
          cases h
        | cons second others =>
          rw [afterComma_cons_cons (hpieces first mem_cons_self)] at h
          obtain ⟨hle, hall⟩ :=
            ih (fun piece hpiece => hpieces piece (mem_cons_of_mem _ hpiece)) (by simp) h
          refine ⟨Nat.succ_le_succ hle, ?_⟩
          rw [take_succ_cons, forall_mem_cons]
          exact ⟨by simp [hword], hall⟩

end Groups

/-! ### Lines -/

theorem mem_lastGroups {group : List Char} (h : group ∈ lastGroups num linePtr) :
    group ∈ groups linePtr := mem_of_mem_drop h

theorem length_lastGroups (h : num ≤ (groups linePtr).length) :
    (lastGroups num linePtr).length = num := by
  rw [lastGroups, length_drop]
  omega

theorem length_lineWords (h : num ≤ (groups linePtr).length) :
    (lineWords num linePtr).length = num := by
  rw [lineWords, length_reverse, length_map, length_lastGroups h]

theorem readLine_eq (hnum : 0 < num) (hcpuset : cpuset.length = num) (readIdx : ℤ)
    (hle : num ≤ (groups linePtr).length) : readLine num ⟨none, readIdx, cpuset⟩ linePtr =
      readGroups num (join (lastGroups num linePtr)) cpuset := by
  have hcount := length_groups linePtr
  rw [readLine]
  dsimp only
  by_cases hskip : num ≤ linePtr.count ','
  · have hlt : linePtr.count ',' + 1 - num < (groups linePtr).length := by omega
    have hskipped := skipGroups_join (fun _ => not_mem_groups) hlt
    rw [join_groups] at hskipped
    rw [if_pos hskip, hskipped, lastGroups, hcount]
  · have hdrop : lastGroups num linePtr = groups linePtr := by
      rw [lastGroups, show (groups linePtr).length - num = 0 by omega, drop_zero]
    rw [if_neg hskip, hdrop, join_groups]

theorem readLine_of_scans (hnum : 0 < num) (hcpuset : cpuset.length = num) (readIdx : ℤ)
    (h : LineScans num linePtr) :
    readLine num ⟨none, readIdx, cpuset⟩ linePtr = ⟨none, -1, lineWords num linePtr⟩ := by
  have hlength := length_lastGroups h.1
  have hread := readGroups_join []
    (fun _ hgroup => not_mem_groups (mem_lastGroups hgroup)) h.2
    (ne_nil_of_length_pos (hlength.symm ▸ hnum)) (hcpuset.trans hlength.symm)
  rw [hlength, append_nil, append_nil] at hread
  rw [readLine_eq hnum hcpuset readIdx h.1, hread, lineWords]

theorem scans_of_readLine (hnum : 0 < num) (hcpuset : cpuset.length = num) {readIdx : ℤ}
    (h : (readLine num ⟨none, readIdx, cpuset⟩ linePtr).err = none) : LineScans num linePtr := by
  by_cases hle : num ≤ (groups linePtr).length
  · have hlength := length_lastGroups hle
    rw [readLine_eq hnum hcpuset readIdx hle] at h
    have hall := (of_err_readGroups (fun _ hgroup => not_mem_groups (mem_lastGroups hgroup))
      (ne_nil_of_length_pos (hlength.symm ▸ hnum)) h).2
    rw [take_of_length_le hlength.le] at hall
    exact ⟨hle, hall⟩
  · have hcount := length_groups linePtr
    rw [readLine] at h
    dsimp only at h
    rw [if_neg (by omega)] at h
    rw [← join_groups linePtr] at h
    have hread := of_err_readGroups (fun _ => not_mem_groups) (splitOn_ne_nil _ _) h
    exact absurd hread.1 hle

/-- **The loop over the lines.** -/
theorem foldl_readLine (hnum : 0 < num) (hcpuset : cpuset.length = num)
    (lines : List (List Char)) :
    let s := lines.foldl (readLine num) ⟨none, 0, cpuset⟩
    (s.err = none → (∀ linePtr ∈ lines, LineScans num linePtr) ∧
      ((lines = [] ∧ s = ⟨none, 0, cpuset⟩) ∨
        ∃ last ∈ lines.getLast?, s = ⟨none, -1, lineWords num last⟩)) ∧
      ((∀ linePtr ∈ lines, LineScans num linePtr) → s.err = none) := by
  induction lines using List.reverseRecOn with
  | nil => exact ⟨fun _ => ⟨by simp, .inl ⟨rfl, rfl⟩⟩, fun _ => rfl⟩
  | append_singleton lines linePtr ih =>
    obtain ⟨hof, hto⟩ := ih
    simp only [List.foldl_append, foldl_cons, foldl_nil]
    generalize hs : lines.foldl (readLine num) ⟨none, 0, cpuset⟩ = s at *
    -- before the line there was an error, which stays, or the words are as many as they were
    have hstate : s.err = none → ∃ readIdx words, words.length = num ∧
        s = ⟨none, readIdx, words⟩ := by
      intro herr
      obtain ⟨hall, ⟨-, hs⟩ | ⟨last, hlast, hs⟩⟩ := hof herr
      · exact ⟨0, cpuset, hcpuset, hs⟩
      · exact ⟨-1, _, length_lineWords (hall last (mem_of_getLast? hlast)).1, hs⟩
    constructor
    · intro herr
      cases hold : s.err with
      | some e =>
        rw [readLine, hold] at herr
        cases herr
      | none =>
        obtain ⟨readIdx, words, hwords, rfl⟩ := hstate hold
        have hline := scans_of_readLine hnum hwords herr
        refine ⟨?_, .inr ⟨linePtr, by simp, readLine_of_scans hnum hwords readIdx hline⟩⟩
        intro line hmem
        obtain hmem | hmem := mem_append.mp hmem
        · exact (hof hold).1 line hmem
        · exact mem_singleton.mp hmem ▸ hline
    · intro hall
      have hold := hto fun line hmem => hall line (mem_append_left _ hmem)
      obtain ⟨readIdx, words, hwords, rfl⟩ := hstate hold
      rw [readLine_of_scans hnum hwords readIdx (hall linePtr (by simp))]

theorem foldl_getlines (s : Scan) : (getlines text).foldl (fun s line =>
      match afterKey line with
      | some linePtr => readLine num s linePtr
      | none => s) s = (keyLines text).foldl (readLine num) s := by
  rw [keyLines, foldl_filterMap]
  congr 1
  funext s line
  cases afterKey line <;> rfl

/-- **What the function returns**: the words of the last line, when there is a line and all of them
scan. -/
theorem procCpusetHelper_eq_ok_iff (hpos : 0 < numCpu) (hmax : numCpu ≠ intMax)
    (hcpuset : cpuset.length = numRead numCpu) {words : List ℕ} :
    procCpusetHelper numCpu cpuset text = .ok words ↔
      Scans numCpu text ∧ ∃ last ∈ (keyLines text).getLast?,
        words = lineWords (numRead numCpu) last := by
  obtain ⟨hof, hto⟩ := foldl_readLine (numRead_pos hpos) hcpuset (keyLines text)
  rw [procCpusetHelper, if_neg hmax]
  dsimp only
  rw [foldl_getlines]
  generalize (keyLines text).foldl (readLine (numRead numCpu)) ⟨none, 0, cpuset⟩ = s at *
  constructor
  · intro h
    by_cases hidx : s.readIdx = -1
    swap
    · rw [if_pos hidx] at h
      cases h
    rw [if_neg (not_not.mpr hidx)] at h
    cases herr : s.err with
    | some e => rw [herr] at h; cases h
    | none =>
      obtain ⟨hall, ⟨-, hs⟩ | ⟨last, hlast, hs⟩⟩ := hof herr
      · rw [hs] at hidx
        cases hidx
      · refine ⟨⟨?_, hall⟩, last, hlast, ?_⟩
        · intro hnil
          rw [hnil] at hlast
          cases hlast
        · rw [hs] at h
          exact (Except.ok.inj h).symm
  · rintro ⟨⟨hne, hall⟩, last, hlast, rfl⟩
    obtain ⟨-, ⟨hnil, -⟩ | ⟨last', hlast', hs⟩⟩ := hof (hto hall)
    · exact absurd hnil hne
    · rw [Option.mem_unique hlast hlast', hs]
      rfl

theorem exists_procCpusetHelper_iff (text : List Char) (hpos : 0 < numCpu) (hmax : numCpu ≠ intMax)
    (hcpuset : cpuset.length = numRead numCpu) :
    (∃ words, procCpusetHelper numCpu cpuset text = .ok words) ↔ Scans numCpu text := by
  constructor
  · rintro ⟨words, h⟩
    exact ((procCpusetHelper_eq_ok_iff hpos hmax hcpuset).mp h).1
  · intro h
    refine ⟨_, (procCpusetHelper_eq_ok_iff hpos hmax hcpuset).mpr
      ⟨h, (keyLines text).getLast h.1, getLast?_eq_some_getLast h.1, rfl⟩⟩

/-! ### Texts that have a mask -/

theorem mask_eq_some_iff {m : List ℕ} : mask text = some m ↔
    ∃ linePtr, keyLines text = [linePtr] ∧ (∀ group ∈ groups linePtr, IsGroup group) ∧
      m = ((groups linePtr).map groupValue).reverse := by
  rw [mask]
  constructor
  · intro h
    split at h
    · next linePtr hlines =>
      split_ifs at h with hall
      exact ⟨linePtr, hlines, hall, (Option.some.inj h).symm⟩
    · cases h
  · rintro ⟨linePtr, hlines, hall, rfl⟩
    rw [hlines]
    dsimp only
    rw [if_pos hall]

theorem lineWords_of_mask (numCpu : ℕ) {m : List ℕ} (h : mask text = some m) :
    (Scans numCpu text ↔ numRead numCpu ≤ m.length) ∧
      ∀ last ∈ (keyLines text).getLast?, numRead numCpu ≤ m.length →
        lineWords (numRead numCpu) last = m.take (numRead numCpu) := by
  obtain ⟨linePtr, hlines, hall, rfl⟩ := mask_eq_some_iff.mp h
  have hlength : ((groups linePtr).map groupValue).reverse.length = (groups linePtr).length := by
    simp
  have hscan : ∀ group ∈ lastGroups (numRead numCpu) linePtr,
      scanHex group = some (groupValue group) :=
    fun group hgroup => scanHex_of_isGroup (hall group (mem_lastGroups hgroup))
  rw [hlength, Scans, hlines]
  refine ⟨⟨fun h => (h.2 linePtr mem_cons_self).1, fun hle => ⟨cons_ne_nil _ _, ?_⟩⟩, ?_⟩
  · intro line hline
    rw [mem_singleton.mp hline]
    exact ⟨hle, fun group hgroup => by rw [hscan group hgroup]; rfl⟩
  · intro last hlast hle
    obtain rfl : linePtr = last := by simpa using hlast
    have hmap : (lastGroups (numRead numCpu) linePtr).map (fun group => (scanHex group).getD 0) =
        (lastGroups (numRead numCpu) linePtr).map groupValue :=
      map_congr_left fun group hgroup => by rw [hscan group hgroup]; rfl
    rw [lineWords, hmap, lastGroups, map_drop, take_reverse, length_map]

/-- **Of a mask with enough words the function returns the lowest ones.** -/
theorem procCpusetHelper_of_mask (hpos : 0 < numCpu) (hmax : numCpu ≠ intMax)
    (hcpuset : cpuset.length = numRead numCpu) {m words : List ℕ} (h : mask text = some m) :
    procCpusetHelper numCpu cpuset text = .ok words ↔
      numRead numCpu ≤ m.length ∧ words = m.take (numRead numCpu) := by
  obtain ⟨hscans, hlast⟩ := lineWords_of_mask numCpu h
  rw [procCpusetHelper_eq_ok_iff hpos hmax hcpuset, hscans]
  refine and_congr_right fun hle => ?_
  constructor
  · rintro ⟨last, hmem, rfl⟩
    exact hlast last hmem hle
  · rintro rfl
    have hne := (hscans.mpr hle).1
    exact ⟨_, getLast?_eq_some_getLast hne,
      (hlast _ (getLast?_eq_some_getLast hne) hle).symm⟩

end Geopm.Sched
