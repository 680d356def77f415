import Geopm.Lib.Lts

/-!
# A file that is restored

`RestorableFileWriter` keeps a backup of a file that it overwrites, and restores it. The two paths
are on a disk that survives a crash; the writer, with what it has read, does not. Nobody else writes
to the two paths, and a backup is only removed by the writer, or renamed by it when it is not
secure.

* `universal` : what Python reads in text mode, where every line ends in a newline;
* `Writer`, `Event`, `Writer.step` : the disk with the next operation of the writer, and the steps;
* `Traced`, `Traced.step` : the same with the contents of the file before the first update since
  there was no backup;
* `Backed` : what holds in every run; `Untouched` : and in those in which the backup is secure;
* `restored_iff` : a restored file has its old contents exactly when it had no carriage return.
-/

namespace Geopm.RestorableFile

open Option

/-- What reading in text mode makes of a text. -/
def universal : List Char → List Char
  | '\r' :: '\n' :: text => '\n' :: universal text
  | '\r' :: text => '\n' :: universal text
  | c :: text => c :: universal text
  | [] => []

/-- What a file holds: a text, or bytes that are none. -/
inductive Contents where
  | text (chars : List Char)
  | binary (bytes : List ℕ)
deriving DecidableEq

/-- The file operation that the writer performs next, with what it has read so far. -/
inductive Next where
  | idle
  -- the operations of `backup_and_try_update`
  | read (newContents : List Char)
  | isFile (oldSetting newContents : List Char)
  | makeBackup (oldSetting newContents : List Char)
  | truncate (newContents : List Char)
  | write (newContents : List Char)
  -- those of `restore_and_cleanup`
  | backupExists
  | readBackup
  | truncateOld (backupContents : List Char)
  | writeOld (backupContents : List Char)
  | remove
deriving DecidableEq

/-- The two files, and the writer. -/
structure Writer where
  writePath : Option Contents
  backupPath : Option (List Char)
  next : Next
deriving DecidableEq

/-- A call, the next operation, what else can become of the reading of the backup, or a crash. -/
inductive Event where
  | update (newContents : List Char)
  | restore
  | operation
  | insecure
  | unreadable
  | crash
deriving DecidableEq

namespace Writer

/-- The next file operation. -/
def operation (s : Writer) : Option Writer :=
  match s.next with
  | .idle => none
  | .read newContents =>
    match s.writePath with
    -- there is nothing to back up, or `read` raises a `UnicodeDecodeError`
    | none | some (.binary _) => some { s with next := .idle }
    | some (.text t) => some { s with next := .isFile (universal t) newContents }
  | .isFile oldSetting newContents =>
    if s.backupPath.isSome then some { s with next := .truncate newContents }
    else some { s with next := .makeBackup oldSetting newContents }
  | .makeBackup oldSetting newContents =>
    some { s with backupPath := some oldSetting, next := .truncate newContents }
  | .truncate newContents =>
    some { s with writePath := some (.text []), next := .write newContents }
  | .write newContents => some { s with writePath := some (.text newContents), next := .idle }
  | .backupExists =>
    some { s with next := if s.backupPath.isSome then .readBackup else .idle }
  | .readBackup => s.backupPath.map fun c => { s with next := .truncateOld (universal c) }
  | .truncateOld c => some { s with writePath := some (.text []), next := .writeOld c }
  | .writeOld c => some { s with writePath := some (.text c), next := .remove }
  | .remove => some { s with backupPath := none, next := .idle }

/-- One step. -/
def step (s : Writer) : Event → Option Writer
  | .update newContents => if s.next = .idle then some { s with next := .read newContents } else none
  | .restore => if s.next = .idle then some { s with next := .backupExists } else none
  | .operation => s.operation
  -- a backup that is not secure is renamed, and nothing is restored
  | .insecure =>
    if s.next = .readBackup then some { s with backupPath := none, next := .idle } else none
  | .unreadable => if s.next = .readBackup then some { s with next := .idle } else none
  | .crash => some { s with next := .idle }

end Writer

/-- The writer, with what the file held before the first update since there was no backup. -/
structure Traced where
  writer : Writer
  original : Option Contents
deriving DecidableEq

namespace Traced

/-- A file without a backup. -/
def start (contents : Option Contents) : Traced := ⟨⟨contents, none, .idle⟩, contents⟩

/-- One step. -/
def step (x : Traced) (e : Event) : Option Traced :=
  (x.writer.step e).map fun s =>
    ⟨s, match e with
      | .update _ => if x.writer.backupPath = none then x.writer.writePath else x.original
      | _ => x.original⟩

end Traced

/-! ### Reading in text mode -/

theorem not_mem_universal (t : List Char) : '\r' ∉ universal t := by
  fun_induction universal t with
  | case1 t ih => simp [ih]
  | case2 t h ih => simp [ih]
  | case3 c t h h' ih =>
    rw [List.mem_cons, not_or]
    exact ⟨fun hc => h' hc.symm, ih⟩
  | case4 => simp

theorem universal_eq_self {t : List Char} (h : '\r' ∉ t) : universal t = t := by
  fun_induction universal t with
  | case1 t ih => simp at h
  | case2 t h' ih => simp at h
  | case3 c t h' h'' ih => rw [ih fun hmem => h (List.mem_cons_of_mem _ hmem)]
  | case4 => rfl

theorem universal_eq_self_iff {t : List Char} : universal t = t ↔ '\r' ∉ t :=
  ⟨fun h => h ▸ not_mem_universal t, universal_eq_self⟩

@[simp] theorem universal_universal (t : List Char) : universal (universal t) = universal t :=
  universal_eq_self (not_mem_universal t)

/-! ### Invariants -/

/-- The setting is what a reader finds in the original file. -/
def Known (original : Option Contents) (setting : List Char) : Prop :=
  ∃ t, original = some (.text t) ∧ setting = universal t

theorem Known.universal_eq {original : Option Contents} {setting : List Char}
    (h : Known original setting) : universal setting = setting := by
  obtain ⟨t, -, rfl⟩ := h
  exact universal_universal t

/-- What the writer has read agrees with the files. -/
def NextAgrees (x : Traced) : Next → Prop
  | .idle | .backupExists => True
  | .read _ => x.writer.backupPath = none → x.original = x.writer.writePath
  | .isFile old _ => x.writer.backupPath = none → Known x.original old
  | .makeBackup old _ => x.writer.backupPath = none ∧ Known x.original old
  | .truncate _ | .write _ | .readBackup => x.writer.backupPath.isSome
  | .truncateOld c | .writeOld c => x.writer.backupPath = some c
  | .remove => ∃ c, x.writer.backupPath = some c ∧ x.writer.writePath = some (.text c)

/-- The backup holds the original contents. -/
structure Backed (x : Traced) : Prop where
  backup : ∀ c, x.writer.backupPath = some c → Known x.original c
  next : NextAgrees x x.writer.next

namespace Backed

variable {x y : Traced}

theorem start (contents : Option Contents) : Backed (.start contents) :=
  ⟨fun _ h => (nomatch h), trivial⟩

theorem operation (hx : Backed x) {s : Writer} (hs : x.writer.operation = some s) :
    Backed ⟨s, x.original⟩ := by
  obtain ⟨⟨writePath, backupPath, next⟩, original⟩ := x
  obtain ⟨hbackup, hnext⟩ := hx
  cases next with
  | idle => cases hs
  | read new =>
    match writePath with
    | none | some (.binary _) =>
      cases hs
      exact ⟨hbackup, trivial⟩
    | some (.text t) =>
      cases hs
      exact ⟨hbackup, fun hnone => ⟨t, hnext hnone, rfl⟩⟩
  | isFile old new =>
    cases backupPath with
    | none =>
      cases hs
      exact ⟨hbackup, rfl, hnext rfl⟩
    | some c =>
      cases hs
      exact ⟨hbackup, rfl⟩
  | makeBackup old new =>
    cases hs
    refine ⟨fun c hc => ?_, rfl⟩
    cases hc
    exact hnext.2
  | truncate new =>
    cases hs
    exact ⟨hbackup, hnext⟩
  | write new =>
    cases hs
    exact ⟨hbackup, trivial⟩
  | backupExists =>
    cases backupPath with
    | none =>
      cases hs
      exact ⟨hbackup, trivial⟩
    | some c =>
      cases hs
      exact ⟨hbackup, rfl⟩
  | readBackup =>
    cases backupPath with
    | none => cases hs
    | some c =>
      cases hs
      -- the text of the backup was read in text mode before, so it is read as it is
      exact ⟨hbackup, congrArg some (hbackup c rfl).universal_eq.symm⟩
  | truncateOld c =>
    cases hs
    exact ⟨hbackup, hnext⟩
  | writeOld c =>
    cases hs
    exact ⟨hbackup, c, hnext, rfl⟩
  | remove =>
    cases hs
    exact ⟨fun _ h => (nomatch h), trivial⟩

theorem step (hx : Backed x) {e : Event} (hy : x.step e = some y) : Backed y := by
  obtain ⟨s, hs, rfl⟩ := map_eq_some_iff.mp hy
  cases e with
  | update new =>
    simp only [Writer.step, ite_none_right_eq_some, Option.some.injEq] at hs
    obtain ⟨-, rfl⟩ := hs
    refine ⟨fun c hc => ?_, fun hnone => ?_⟩
    · have hsome : x.writer.backupPath ≠ none := by
        rw [show x.writer.backupPath = some c from hc]
        exact some_ne_none c
      rw [if_neg hsome]
      exact hx.backup c hc
    · exact if_pos hnone
  | restore =>
    simp only [Writer.step, ite_none_right_eq_some, Option.some.injEq] at hs
    obtain ⟨-, rfl⟩ := hs
    exact ⟨hx.backup, trivial⟩
  | operation => exact hx.operation hs
  | insecure =>
    simp only [Writer.step, ite_none_right_eq_some, Option.some.injEq] at hs
    obtain ⟨-, rfl⟩ := hs
    exact ⟨fun _ h => (nomatch h), trivial⟩
  | unreadable =>
    simp only [Writer.step, ite_none_right_eq_some, Option.some.injEq] at hs
    obtain ⟨-, rfl⟩ := hs
    exact ⟨hx.backup, trivial⟩
  | crash =>
    cases hs
    exact ⟨hx.backup, trivial⟩

end Backed

/-- The contents are those that the file had in the beginning, perhaps with other line ends. -/
def Agrees (contents now : Option Contents) : Prop :=
  now = contents ∨ ∃ t, contents = some (.text t) ∧ now = some (.text (universal t))

theorem Agrees.known {contents now : Option Contents} (h : Agrees contents now)
    {setting : List Char} (hknown : Known now setting) : Known contents setting := by
  obtain rfl | ⟨t, rfl, rfl⟩ := h
  · exact hknown
  · obtain ⟨t', ht', rfl⟩ := hknown
    cases ht'
    exact ⟨t, rfl, universal_universal t⟩

/-- As long as no backup is found insecure, the settings of the writer are not taken for original
contents. -/
structure Untouched (contents : Option Contents) (x : Traced) : Prop where
  backed : Backed x
  original : Agrees contents x.original
  writePath : x.writer.backupPath = none → Agrees contents x.writer.writePath

namespace Untouched

variable {contents : Option Contents} {x y : Traced}

theorem start (contents : Option Contents) : Untouched contents (.start contents) :=
  ⟨.start contents, .inl rfl, fun _ => .inl rfl⟩

theorem operation (hx : Untouched contents x) {s : Writer} (hs : x.writer.operation = some s) :
    s.backupPath = none → Agrees contents s.writePath := by
  obtain ⟨⟨writePath, backupPath, next⟩, original⟩ := x
  obtain ⟨⟨hbackup, hnext⟩, horiginal, hwrite⟩ := hx
  cases next with
  | idle => cases hs
  | read new =>
    match writePath with
    | none | some (.binary _) | some (.text _) =>
      cases hs
      exact hwrite
  | isFile old new =>
    cases backupPath with
    | none =>
      cases hs
      exact hwrite
    | some c =>
      cases hs
      exact fun h => nomatch h
  | makeBackup old new =>
    cases hs
    exact fun h => nomatch h
  | truncate new | write new | truncateOld c | writeOld c =>
    -- the file is written only while there is a backup
    cases hs
    intro hnone
    cases hnone
    cases hnext
  | backupExists =>
    cases backupPath with
    | none =>
      cases hs
      exact hwrite
    | some c =>
      cases hs
      exact fun h => nomatch h
  | readBackup =>
    cases backupPath with
    | none => cases hs
    | some c =>
      cases hs
      exact fun h => nomatch h
  | remove =>
    cases hs
    obtain ⟨c, hc, hcontents⟩ := hnext
    obtain ⟨t, ht, hct⟩ := horiginal.known (hbackup c hc)
    exact fun _ => .inr ⟨t, ht, hct ▸ hcontents⟩

theorem step (hx : Untouched contents x) {e : Event} (he : e ≠ .insecure)
    (hy : x.step e = some y) : Untouched contents y := by
  have hbacked := hx.backed.step hy
  obtain ⟨s, hs, rfl⟩ := map_eq_some_iff.mp hy
  cases e with
  | update new =>
    simp only [Writer.step, ite_none_right_eq_some, Option.some.injEq] at hs
    obtain ⟨-, rfl⟩ := hs
    refine ⟨hbacked, ?_, hx.writePath⟩
    dsimp only
    split_ifs with hnone
    · exact hx.writePath hnone
    · exact hx.original
  | restore =>
    simp only [Writer.step, ite_none_right_eq_some, Option.some.injEq] at hs
    obtain ⟨-, rfl⟩ := hs
    exact ⟨hbacked, hx.original, hx.writePath⟩
  | operation => exact ⟨hbacked, hx.original, hx.operation hs⟩
  | insecure => exact absurd rfl he
  | unreadable =>
    simp only [Writer.step, ite_none_right_eq_some, Option.some.injEq] at hs
    obtain ⟨-, rfl⟩ := hs
    exact ⟨hbacked, hx.original, hx.writePath⟩
  | crash =>
    cases hs
    exact ⟨hbacked, hx.original, hx.writePath⟩

end Untouched

/-! ### Runs -/

theorem backed_run {contents : Option Contents} {events : List Event} {x : Traced}
    (h : Lts.run Traced.step (.start contents) events = some x) : Backed x :=
  (Lts.reachable_of_run h).invariant (.start contents) fun _ _ _ hx _ hy => hx.step hy

theorem untouched_run {contents : Option Contents} {events : List Event} {x : Traced}
    (h : Lts.run Traced.step (.start contents) events = some x) (hsecure : .insecure ∉ events) :
    Untouched contents x :=
  (Lts.reachableIf_of_run (C := fun _ e => e ≠ .insecure) h
    fun _ _ he hinsecure => hsecure (hinsecure ▸ he)).invariant (.start contents)
      fun _ _ _ hx he hy => hx.step he hy

/-- In any run from a state without a backup: a backup holds what a reader found in the file before
the first update since there was none, and, unless one was found insecure, in the beginning. When
`restore_and_cleanup` has removed the backup, the file has the contents it had before that update
exactly when there was no carriage return in them. -/
theorem restored_iff (contents : Option Contents) (events : List Event) (x : Traced)
    (h : Lts.run Traced.step (.start contents) events = some x) :
    (∀ c, x.writer.backupPath = some c →
      Known x.original c ∧ (.insecure ∉ events → Known contents c)) ∧
    (x.writer.next = .remove → ∃ t s, x.original = some (.text t) ∧
      x.step .operation = some ⟨s, x.original⟩ ∧ s.backupPath = none ∧
      (s.writePath = x.original ↔ '\r' ∉ t)) := by
  have hx := backed_run h
  refine ⟨fun c hc => ⟨hx.backup c hc, fun hsecure => ?_⟩, fun hremove => ?_⟩
  · exact (untouched_run h hsecure).original.known (hx.backup c hc)
  · have hnext := hx.next
    rw [hremove] at hnext
    obtain ⟨c, hc, hwrite⟩ := hnext
    obtain ⟨t, ht, rfl⟩ := hx.backup c hc
    refine ⟨t, { x.writer with backupPath := none, next := .idle }, ht, ?_, rfl, ?_⟩
    · have hstep : x.writer.step .operation =
          some { x.writer with backupPath := none, next := .idle } := by
        rw [Writer.step, Writer.operation, hremove]
      change (x.writer.step .operation).map (fun s => (⟨s, x.original⟩ : Traced)) = _
      rw [hstep]
      rfl
    · dsimp only
      rw [hwrite, ht, Option.some.injEq, Contents.text.injEq]
      exact universal_eq_self_iff

/-- The writer crashes while it overwrites a file, and a new one restores it, up to the removal of
the backup. -/
def crashAndRestore : List Event :=
  [.update ['b'], .operation, .operation, .operation, .operation, .crash,
    .restore, .operation, .operation, .operation, .operation]

theorem restored_iff_crash : ∃ x s,
    Lts.run Traced.step (.start (some (.text ['a']))) crashAndRestore = some x ∧
      x.step .operation = some ⟨s, x.original⟩ ∧ s.backupPath = none ∧
      s.writePath = x.original := by
  have hrun : Lts.run Traced.step (.start (some (.text ['a']))) crashAndRestore =
      some ⟨⟨some (.text ['a']), some ['a'], .remove⟩, some (.text ['a'])⟩ := by decide
  obtain ⟨t, s, ht, hstep, hbackup, hiff⟩ := (restored_iff _ _ _ hrun).2 rfl
  cases ht
  exact ⟨_, s, hrun, hstep, hbackup, hiff.mpr (by decide)⟩

/-- The line end of a text file from another system is not restored. -/
theorem not_restored : ¬ ∀ (contents : Option Contents) (events : List Event) (x : Traced),
    Lts.run Traced.step (.start contents) events = some x → x.writer.next = .remove →
      ∃ s, x.step .operation = some ⟨s, x.original⟩ ∧ s.backupPath = none ∧
        s.writePath = x.original := by
  intro h
  obtain ⟨s, hs, -, hwrite⟩ := h (some (.text ['a', '\r', '\n'])) crashAndRestore
    ⟨⟨some (.text ['a', '\n']), some ['a', '\n'], .remove⟩, some (.text ['a', '\r', '\n'])⟩
    (by decide) rfl
  cases hs
  cases hwrite

end Geopm.RestorableFile
