import Geopm.Service.Step

/-!
# Edits of the access lists

* `readAllowed_writeAllowed` : the text written for a list of names is read back as these names,
  when each of them is a line of its own (`IsLine`);
* `getUserAccess_of_readable` : a user without `CAP_SYS_ADMIN` has the default lists and the lists
  of its groups, with and without the shortcut of `_get_user_groups`;
* `takesEffect_iff` : when an edit of the lists of a group takes effect for a member of the group.

The lists of a group are written to the directory that the caller spelled, and read for a user
from the directory that `str(gid)` spells.
-/

namespace Geopm

open List

/-! ### Sorted lists without duplicates -/

@[simp] theorem mem_pySortedSet {x : String} {xs : List String} :
    x ∈ pySortedSet xs ↔ x ∈ xs :=
  (mem_insertionSort _).trans mem_dedup

theorem pySortedSet_congr {xs ys : List String} (h : ∀ x, x ∈ xs ↔ x ∈ ys) :
    pySortedSet xs = pySortedSet ys := by
  have hperm : xs.dedup.Perm ys.dedup :=
    (perm_ext_iff_of_nodup xs.nodup_dedup ys.nodup_dedup).mpr fun x => by
      rw [mem_dedup, mem_dedup, h]
  have hsorted : ∀ zs : List String, (pySorted zs).Pairwise (· ≤ ·) := fun zs =>
    pairwise_insertionSort _ zs
  refine List.Perm.eq_of_pairwise (fun a b _ _ => Std.le_antisymm) (hsorted _) (hsorted _) ?_
  exact (perm_insertionSort _ _).trans
    (hperm.trans (perm_insertionSort _ _).symm)

/-! ### Lines -/

theorem pyStrip_eq_rdropWhile (cs : List Char) :
    pyStrip cs = (cs.dropWhile pyIsSpace).rdropWhile pyIsSpace := rfl

theorem pyStrip_pyStrip (cs : List Char) : pyStrip (pyStrip cs) = pyStrip cs := by
  have hhead : (pyStrip cs).dropWhile pyIsSpace = pyStrip cs := by
    refine dropWhile_eq_self_iff.mpr fun hlen => ?_
    have hpre : pyStrip cs <+: cs.dropWhile pyIsSpace := rdropWhile_prefix _ _
    rw [hpre.getElem hlen]
    exact dropWhile_get_zero_not _ _ (hlen.trans_le hpre.length_le)
  rw [pyStrip_eq_rdropWhile (pyStrip cs), hhead, pyStrip_eq_rdropWhile cs,
    rdropWhile_idempotent]

theorem mem_of_mem_pyStrip {c : Char} {cs : List Char} (h : c ∈ pyStrip cs) : c ∈ cs :=
  dropWhile_subset _ (( rdropWhile_prefix pyIsSpace _).subset h)

theorem not_isLineBreak_of_mem {cs line : List Char} (h : line ∈ pySplitlines cs) :
    ∀ c ∈ line, isLineBreak c = false := by
  induction cs generalizing line with
  | nil =>
    obtain rfl : line = [] := by simpa [pySplitlines] using h
    exact fun c hc => absurd hc not_mem_nil
  | cons c cs ih =>
    rw [pySplitlines, splitOnP_cons_eq_if_modifyHead] at h
    split_ifs at h with hc
    · rcases mem_cons.mp h with rfl | h
      · exact fun c hc => absurd hc not_mem_nil
      · exact ih h
    · obtain ⟨first, rest, heq⟩ := exists_cons_of_ne_nil (splitOnP_ne_nil isLineBreak cs)
      have hcs : pySplitlines cs = first :: rest := heq
      rw [heq, modifyHead_cons] at h
      rcases mem_cons.mp h with rfl | h
      · refine forall_mem_cons.mpr ⟨by simpa using hc, ih ?_⟩
        exact hcs ▸ mem_cons_self
      · exact ih (hcs ▸ mem_cons_of_mem _ h)

namespace AccessLists

/-- A name that is a line of its own: no blank line, no comment, no line break, and no blanks at
its ends. -/
structure IsLine (name : String) : Prop where
  ne : name.toList ≠ []
  noComment : name.toList.head? ≠ some '#'
  stripped : pyStrip name.toList = name.toList
  noBreak : ∀ c ∈ name.toList, isLineBreak c = false

variable {names : List String} {name : String}

theorem noBreak_of_all {cs : List Char} (h : cs.all (fun c => !isLineBreak c) = true) :
    ∀ c ∈ cs, isLineBreak c = false := by
  simpa using h

theorem pySplitlines_writeAllowed (h : ∀ name ∈ names, IsLine name) :
    pySplitlines (writeAllowed names).toList = names.map String.toList ++ [[]] := by
  have hnl : isLineBreak '\n' = true := by decide
  rw [writeAllowed, String.toList_intercalate, pySplitlines]
  induction names with
  | nil => rfl
  | cons name names ih =>
    have hcons : ("\n".toList.intercalate ((name :: names ++ [""]).map String.toList)) =
        name.toList ++ '\n' :: "\n".toList.intercalate ((names ++ [""]).map String.toList) := by
      cases names <;> simp [List.intercalate]
    rw [hcons, splitOnP_append_cons_of_forall_mem (h name mem_cons_self).noBreak _ hnl,
      ih fun x hx => h x (mem_cons_of_mem _ hx)]
    rfl

/-- **The text written for a list of names is read back as these names.** -/
theorem readAllowed_writeAllowed (h : ∀ name ∈ names, IsLine name) :
    readAllowed (some (writeAllowed names)) = names := by
  have hstrip : (names.map String.toList).map pyStrip = names.map String.toList := by
    refine (map_congr_left fun line hline => ?_).trans (map_id _)
    obtain ⟨name, hname, rfl⟩ := mem_map.mp hline
    exact (h name hname).stripped
  have hkeep : (names.map String.toList).filter
      (fun line => decide (line ≠ [] ∧ line.head? ≠ some '#')) = names.map String.toList := by
    refine filter_eq_self.mpr fun line hline => decide_eq_true ?_
    obtain ⟨name, hname, rfl⟩ := mem_map.mp hline
    exact ⟨(h name hname).ne, (h name hname).noComment⟩
  rw [readAllowed, pySplitlines_writeAllowed h, map_append, hstrip, filter_append, hkeep]
  simp [pyStrip]

theorem isLine_of_mem_readAllowed {file : Option String} (h : name ∈ readAllowed file) :
    IsLine name := by
  cases file with
  | none => exact absurd h not_mem_nil
  | some contents =>
    simp only [readAllowed, mem_map, mem_filter, decide_eq_true_eq] at h
    obtain ⟨_, ⟨⟨line, hline, rfl⟩, hne, hcomment⟩, rfl⟩ := h
    refine ⟨?_, ?_, ?_, ?_⟩ <;> rw [String.toList_ofList]
    · exact hne
    · exact hcomment
    · exact pyStrip_pyStrip line
    · exact fun c hc => not_isLineBreak_of_mem hline c (mem_of_mem_pyStrip hc)

/-! ### The lists of a group directory -/

/-- The directory that a group argument names. -/
def pathName (group : String) : String := if group = "" then defaultAccess else group

/-- The lists that the files of a directory give. -/
def listed (w : World) (dir : String) : List String × List String :=
  match w.config.lookup dir with
  | none => ([], [])
  | some files =>
    let controls := pySortedSet
      (filterValid w.platform.controlNames (readAllowed files.allowedControls))
    (pySortedSet
      (filterValid w.platform.signalNames (readAllowed files.allowedSignals ++ controls)), controls)

/-- `_validate_group` accepts a group argument. -/
def Accepts (w : World) (group : String) : Prop :=
  group = "" ∨ ∃ gid, pyInt? group = some gid ∧ w.users.hasGid gid = true

/-- The lists of a group can be read: it has no directory, or is accepted. -/
def Readable (w : World) (group : String) : Prop :=
  pathName group ∈ w.config → Accepts w group

variable {w : World} {group user : String}

theorem validateGroup_of_accepts (h : Accepts w group) :
    validateGroup group w = .ok (pathName group) w := by
  unfold validateGroup pathName
  split_ifs with hempty
  · rfl
  · obtain ⟨gid, hgid, hhas⟩ := h.resolve_left hempty
    rw [hgid]
    change (if w.users.hasGid gid then pure group else throw _ : Py String) w = _
    rw [if_pos hhas]
    rfl

theorem validateGroup_of_not_accepts (h : ¬ Accepts w group) :
    ∃ e, validateGroup group w = .error e w := by
  unfold validateGroup
  rw [if_neg fun hempty => h (.inl hempty)]
  cases hgid : pyInt? group with
  | none => exact ⟨_, rfl⟩
  | some gid =>
    change ∃ e, (if w.users.hasGid gid then pure group else throw _ : Py String) w = _
    rw [if_neg fun hhas => h (.inr ⟨gid, hgid, hhas⟩)]
    exact ⟨_, rfl⟩

theorem getGroupAccess_of_readable (h : Readable w group) :
    getGroupAccess group w = .ok (listed w (pathName group)) w := by
  change (match w.config.lookup (pathName group) with
    | none => pure ([], [])
    | some files => validateGroup group >>= fun _ => _ : Py (List String × List String)) w = _
  unfold listed
  cases hfiles : w.config.lookup (pathName group) with
  | none => rfl
  | some files =>
    exact Prog.bind_of_ok (validateGroup_of_accepts (h ((Dict.mem_iff _ _).mpr ⟨files, hfiles⟩)))

theorem getGroupAccess_of_not_readable (h : ¬ Readable w group) :
    ∃ e, getGroupAccess group w = .error e w := by
  obtain ⟨hmem, hnot⟩ := Classical.not_imp.mp h
  obtain ⟨files, hfiles⟩ := (Dict.mem_iff _ _).mp hmem
  obtain ⟨e, he⟩ := validateGroup_of_not_accepts hnot
  refine ⟨e, ?_⟩
  change (match w.config.lookup (pathName group) with
    | none => pure ([], [])
    | some files => validateGroup group >>= fun _ => _ : Py (List String × List String)) w = _
  rw [hfiles]
  exact Prog.bind_of_error he

/-! ### The lists of a user -/

/-- The lists of several groups one after another. -/
def collected (w : World) (groups : List String) : List String × List String :=
  (groups.flatMap fun g => (listed w (pathName g)).1,
    groups.flatMap fun g => (listed w (pathName g)).2)

theorem collectGroups_of_readable {groups : List String} (h : ∀ g ∈ groups, Readable w g) :
    collectGroups groups w = .ok (collected w groups) w := by
  induction groups with
  | nil => rfl
  | cons group groups ih =>
    have hhead := getGroupAccess_of_readable (h group mem_cons_self)
    have htail := ih fun g hg => h g (mem_cons_of_mem _ hg)
    exact (Prog.bind_of_ok hhead).trans (Prog.bind_of_ok htail)

theorem collectGroups_of_not_readable {groups : List String} (h : ¬ ∀ g ∈ groups, Readable w g) :
    ∃ e, collectGroups groups w = .error e w := by
  induction groups with
  | nil => exact absurd (fun g hg => absurd hg not_mem_nil) h
  | cons group groups ih =>
    by_cases hhead : Readable w group
    · obtain ⟨e, he⟩ := ih fun htail => h (forall_mem_cons.mpr ⟨hhead, htail⟩)
      exact ⟨e, (Prog.bind_of_ok (getGroupAccess_of_readable hhead)).trans (Prog.bind_of_error he)⟩
    · obtain ⟨e, he⟩ := getGroupAccess_of_not_readable hhead
      exact ⟨e, Prog.bind_of_error he⟩

/-- The groups of a user; the empty string stands for no user. -/
def groupsOf (w : World) (user : String) : Option (List ℕ) :=
  if user = "" then some [] else (w.users.pwGid user).map (w.users.grouplist user)

/-- The group arguments under which the lists of a user are read: its groups, and the default. -/
def dirsOf (groups : List ℕ) : List String := groups.map (fun gid => s!"{gid}") ++ [""]

/-- A client that has no `CAP_SYS_ADMIN`. -/
def Unprivileged (w : World) (p : Pid) : Prop :=
  ∃ pi, w.procs.lookup p = some pi ∧ pi.capSysAdmin = false

theorem digits_toString {gid : ℕ} {c : Char} (h : c ∈ (toString gid).toList) : c.isDigit := by
  rw [Nat.toString_eq_repr, Nat.toList_repr] at h
  exact Nat.isDigit_of_mem_toDigits (by decide) (by decide) h

theorem toString_ne_defaultAccess (gid : ℕ) : toString gid ≠ defaultAccess := by
  intro h
  have hdot : '.'.isDigit := @digits_toString gid _ (by rw [h]; decide)
  exact absurd hdot (by decide)

theorem pathName_toString (gid : ℕ) : pathName (toString gid) = toString gid := by
  refine if_neg fun h => ?_
  have hnil : (toString gid).toList = [] := by rw [h]; rfl
  rw [Nat.toString_eq_repr, Nat.toList_repr] at hnil
  exact Nat.toDigits_ne_nil hnil

/-- When there are only the default lists, no group has a directory. -/
theorem notMem_of_keys {gid : ℕ} (h : w.config.keys = [defaultAccess]) :
    toString gid ∉ w.config := by
  intro hmem
  rw [AList.mem_keys, h, mem_singleton] at hmem
  exact toString_ne_defaultAccess gid hmem

theorem dirsOf_eq (groups : List ℕ) : dirsOf groups = groups.map toString ++ [""] := by
  simp [dirsOf]

variable {groups : List ℕ}

theorem mem_dirsOf {g : String} :
    g ∈ dirsOf groups ↔ (∃ gid ∈ groups, toString gid = g) ∨ g = "" := by
  simp [dirsOf]

theorem readable_default : Readable w "" := fun _ => .inl rfl

theorem getUserAccess_eq {p : Pid} (hp : Unprivileged w p)
    (hgroups : groupsOf w user = some groups) :
    ∃ dirs, (dirs = dirsOf groups ∨ dirs = dirsOf [] ∧ w.config.keys = [defaultAccess]) ∧
      getUserAccess user p w = (collectGroups dirs >>= fun lists =>
        pure (pySortedSet lists.1, pySortedSet lists.2)) w := by
  obtain ⟨pi, hpi, hcap⟩ := hp
  have hcaps : hasCapSysAdmin p w = .ok false w := by
    rw [hasCapSysAdmin, Prog.bind_of_ok (rfl : (get : Py World) w = .ok w w), hpi, ← hcap]
    rfl
  unfold groupsOf at hgroups
  unfold getUserAccess
  rw [Prog.bind_of_ok hcaps, if_neg Bool.false_ne_true]
  by_cases huser : user = ""
  · rw [if_pos huser] at hgroups
    refine ⟨dirsOf groups, .inl rfl, ?_⟩
    cases hgroups
    rw [if_neg (not_not.mpr huser)]
    rfl
  · rw [if_neg huser] at hgroups
    rw [if_pos huser]
    obtain ⟨gid, hgid, rfl⟩ := Option.map_eq_some_iff.mp hgroups
    by_cases hkeys : w.config.keys = [defaultAccess]
    · refine ⟨dirsOf [], .inr ⟨rfl, hkeys⟩, Prog.bind_of_ok ?_⟩
      have hread : getUserGroups user w = .ok [] w := by
        change (if w.config.keys = [defaultAccess] then pure [] else _ : Py (List String)) w = _
        rw [if_pos hkeys]
        rfl
      exact Prog.tryCatch_of_ok hread
    · refine ⟨_, .inl rfl, Prog.bind_of_ok ?_⟩
      have hread : getUserGroups user w =
          .ok ((w.users.grouplist user gid).map fun g => s!"{g}") w := by
        change (if w.config.keys = [defaultAccess] then pure [] else _ : Py (List String)) w = _
        rw [if_neg hkeys, hgid]
        rfl
      exact Prog.tryCatch_of_ok hread

/-- **The lists of a user are the default lists and those of its groups.** -/
theorem getUserAccess_of_readable {p : Pid} (hp : Unprivileged w p)
    (hgroups : groupsOf w user = some groups) (h : ∀ g ∈ dirsOf groups, Readable w g) :
    getUserAccess user p w = .ok (pySortedSet (collected w (dirsOf groups)).1,
      pySortedSet (collected w (dirsOf groups)).2) w := by
  obtain ⟨dirs, hdirs, heq⟩ := getUserAccess_eq hp hgroups
  suffices hcollect : collectGroups dirs w = .ok (collected w dirs) w ∧
      collected w dirs = collected w (dirsOf groups) by
    rw [heq, Prog.bind_of_ok hcollect.1, hcollect.2]
    rfl
  rcases hdirs with rfl | ⟨rfl, hkeys⟩
  · exact ⟨collectGroups_of_readable h, rfl⟩
  · refine ⟨collectGroups_of_readable fun g hg => ?_, ?_⟩
    · obtain rfl : g = "" := by simpa [dirsOf] using hg
      exact readable_default
    · -- the lists that the shortcut leaves out are empty
      have hempty : ∀ gid : ℕ, listed w (pathName (toString gid)) = ([], []) := by
        intro gid
        rw [pathName_toString, listed, (Dict.notMem_iff _ _).mp (notMem_of_keys hkeys)]
      have hnil : groups.flatMap (fun _ => ([] : List String)) = [] :=
        flatMap_eq_nil_iff.mpr fun _ _ => rfl
      simp only [collected, dirsOf_eq, map_nil, nil_append, flatMap_append,
        flatMap_map, hempty, hnil]

theorem getUserAccess_of_not_readable {p : Pid} (hp : Unprivileged w p)
    (hgroups : groupsOf w user = some groups) (h : ¬ ∀ g ∈ dirsOf groups, Readable w g) :
    ∃ e, getUserAccess user p w = .error e w := by
  obtain ⟨dirs, hdirs, heq⟩ := getUserAccess_eq hp hgroups
  rcases hdirs with rfl | ⟨rfl, hkeys⟩
  · obtain ⟨e, he⟩ := collectGroups_of_not_readable h
    exact ⟨e, heq.trans (Prog.bind_of_error he)⟩
  · refine absurd (fun g hg => ?_) h
    rcases mem_dirsOf.mp hg with ⟨gid, -, rfl⟩ | rfl
    · intro hmem
      rw [pathName_toString] at hmem
      exact absurd hmem (notMem_of_keys hkeys)
    · exact readable_default

/-! ### Replacing the lists of a group -/

/-- The state after the lists in a directory have been replaced. -/
def edited (w : World) (dir : String) (signals controls : List String) : World :=
  writeControls dir controls (writeSignals dir signals w)

variable {dir : String} {signals controls : List String}

theorem setGroupAccess_of_accepts (h : Accepts w group) :
    setGroupAccess group signals controls w =
      .ok () (edited w (pathName group) signals controls) :=
  (Prog.bind_of_ok (validateGroup_of_accepts h)).trans rfl

@[simp] theorem lookup_edited (k : String) :
    (edited w dir signals controls).config.lookup k =
      if k = dir then some ⟨some (writeAllowed signals), some (writeAllowed controls)⟩
      else w.config.lookup k := by
  simp only [edited, writeControls, writeSignals, groupFiles, Dict.lookup_insert_eq]
  split_ifs <;> rfl

theorem mem_edited {k : String} :
    k ∈ (edited w dir signals controls).config ↔ k = dir ∨ k ∈ w.config := by
  rw [Dict.mem_iff, Dict.mem_iff, lookup_edited]
  split_ifs with hk <;> simp [hk]

theorem listed_edited_of_ne {k : String} (h : k ≠ dir) :
    listed (edited w dir signals controls) k = listed w k := by
  unfold listed
  rw [lookup_edited, if_neg h]
  rfl

/-- The names in the lists of a directory are lines. -/
theorem isLine_of_mem_listed (h : name ∈ (listed w dir).1 ∨ name ∈ (listed w dir).2) :
    IsLine name := by
  unfold listed at h
  cases hfiles : w.config.lookup dir with
  | none =>
    rw [hfiles] at h
    exact absurd h (by simp)
  | some files =>
    rw [hfiles] at h
    simp only [mem_pySortedSet, filterValid, mem_filter, mem_append] at h
    rcases h with ⟨hsignal | hcontrol, -⟩ | hcontrol
    · exact isLine_of_mem_readAllowed hsignal
    · exact isLine_of_mem_readAllowed hcontrol.1
    · exact isLine_of_mem_readAllowed hcontrol.1

/-- The lists that `get_group_access` is to give after an edit: the controls may also be read,
as far as there is a signal of that name. -/
def editedLists (w : World) (signals controls : List String) : List String × List String :=
  (pySortedSet (signals ++ controls.filter fun name => name ∈ w.platform.signalNames),
    pySortedSet controls)

/-- **The lists of a directory are read back when their names are lines.** -/
theorem listed_edited_eq_iff (hsignals : ∀ x ∈ signals, x ∈ w.platform.signalNames)
    (hcontrols : ∀ x ∈ controls, x ∈ w.platform.controlNames) :
    listed (edited w dir signals controls) dir = editedLists w signals controls ↔
      ∀ x ∈ signals ++ controls, IsLine x := by
  constructor
  · intro h x hx
    have hmem : x ∈ (listed (edited w dir signals controls) dir).1 ∨
        x ∈ (listed (edited w dir signals controls) dir).2 := by
      rw [h]
      refine (mem_append.mp hx).imp (fun hx => ?_) mem_pySortedSet.mpr
      exact mem_pySortedSet.mpr (mem_append_left _ hx)
    exact isLine_of_mem_listed hmem
  · intro h
    have hreadSignals := readAllowed_writeAllowed fun x hx => h x (mem_append_left _ hx)
    have hreadControls := readAllowed_writeAllowed fun x hx => h x (mem_append_right _ hx)
    have hvalid : filterValid w.platform.controlNames controls = controls :=
      filter_eq_self.mpr fun x hx => decide_eq_true (hcontrols x hx)
    unfold listed editedLists
    rw [lookup_edited, if_pos rfl]
    dsimp only
    rw [hreadSignals, hreadControls]
    change (pySortedSet (filterValid w.platform.signalNames
      (signals ++ pySortedSet (filterValid w.platform.controlNames controls))),
      pySortedSet (filterValid w.platform.controlNames controls)) = _
    rw [hvalid]
    refine congrArg (·, pySortedSet controls) (pySortedSet_congr fun x => ?_)
    simp only [filterValid, mem_filter, mem_append, mem_pySortedSet, decide_eq_true_eq]
    constructor
    · rintro ⟨hx | hx, hsignal⟩
      · exact .inl hx
      · exact .inr ⟨hx, hsignal⟩
    · rintro (hx | ⟨hx, hsignal⟩)
      · exact ⟨.inl hx, hsignals x hx⟩
      · exact ⟨.inr hx, hsignal⟩

/-! ### When an edit takes effect -/

/-- A group argument that is the default, or spelled as `str` spells its group ID. -/
def Canonical (group : String) : Prop := group = "" ∨ ∃ gid : ℕ, group = toString gid

/-- A group argument that `_validate_group` accepts, and that is the default or names one of these
groups. -/
def Names (w : World) (groups : List ℕ) (group : String) : Prop :=
  group = "" ∨ ∃ gid ∈ groups, pyInt? group = some (gid : ℤ) ∧ w.users.hasGid gid = true

/-- After the lists of a group have been replaced, `get_group_access` gives these lists,
`get_user_access` gives the union of the lists of all groups of the user and of the default
lists, and so every name of the new lists. -/
def TakesEffect (w : World) (group : String) (signals controls : List String) (user : String)
    (p : Pid) : Prop :=
  ∃ w', setGroupAccess group signals controls w = .ok () w' ∧
    getGroupAccess group w' = .ok (editedLists w signals controls) w' ∧
    ∃ groups lists userSignals userControls, groupsOf w' user = some groups ∧
      List.Forall₂ (fun g l => getGroupAccess g w' = .ok l w') (dirsOf groups) lists ∧
      getUserAccess user p w' = .ok (userSignals, userControls) w' ∧
      userSignals = pySortedSet (lists.flatMap Prod.fst) ∧
      userControls = pySortedSet (lists.flatMap Prod.snd) ∧
      (∀ x ∈ signals, x ∈ userSignals) ∧ (∀ x ∈ controls, x ∈ userControls)

section Edits

variable {groups : List ℕ} {p : Pid}

theorem Names.accepts (h : Names w groups group) : Accepts w group :=
  h.imp id fun ⟨gid, _, hgid, hhas⟩ => ⟨gid, hgid, hhas⟩

theorem accepts_toString (gid : ℕ) : Accepts w (toString gid) ↔ w.users.hasGid gid = true := by
  have hint : pyInt? (toString gid) = some (gid : ℤ) := pyInt?_toString (gid : ℤ)
  have hne : toString gid ≠ "" := fun h => by
    rw [h] at hint
    exact absurd hint (by simp [pyInt?, pyStrip, parseDigits])
  constructor
  · rintro (h | ⟨n, hn, hhas⟩)
    · exact absurd h hne
    · rw [hint] at hn
      exact Option.some.inj hn ▸ hhas
  · exact fun h => .inr ⟨gid, hint, h⟩

/-- A directory that is read for a user is not the edited one, when the group argument is not
spelled as `str` spells it. -/
theorem pathName_ne_of_not_canonical {g : String} (hgroup : Names w groups group)
    (h : ¬ Canonical group) (hg : g ∈ dirsOf groups) : pathName g ≠ pathName group := by
  obtain ⟨gid, -, hint, -⟩ := hgroup.resolve_left fun hempty => h (.inl hempty)
  rw [show pathName group = group from if_neg fun hempty => h (.inl hempty)]
  rcases mem_dirsOf.mp hg with ⟨m, -, rfl⟩ | rfl
  · rw [pathName_toString]
    exact fun heq => h (.inr ⟨m, heq.symm⟩)
  · rintro rfl
    have hnone : pyInt? (pathName "") = none := by decide
    rw [hnone] at hint
    cases hint

/-- A group argument that is spelled as `str` spells it is one of those that are read. -/
theorem mem_dirsOf_of_canonical (hgroup : Names w groups group) (h : Canonical group) :
    group ∈ dirsOf groups := by
  rcases hgroup with rfl | ⟨gid, hgid, hint, -⟩
  · exact mem_dirsOf.mpr (.inr rfl)
  · rcases h with rfl | ⟨m, rfl⟩
    · exact mem_dirsOf.mpr (.inr rfl)
    · have hm : pyInt? (toString m) = some (m : ℤ) := pyInt?_toString (m : ℤ)
      obtain rfl : m = gid := by
        rw [hm] at hint
        exact_mod_cast Option.some.inj hint
      exact mem_dirsOf.mpr (.inl ⟨m, hgid, rfl⟩)

theorem readable_edited_iff (hgroup : Names w groups group) :
    (∀ g ∈ dirsOf groups, Readable (edited w (pathName group) signals controls) g) ↔
      ∀ gid ∈ groups, toString gid ∈ w.config → w.users.hasGid gid = true := by
  constructor
  · intro h gid hgid hmem
    refine (accepts_toString (w := w) gid).mp (h _ (mem_dirsOf.mpr (.inl ⟨gid, hgid, rfl⟩)) ?_)
    rw [pathName_toString]
    exact mem_edited.mpr (.inr hmem)
  · intro h g hg
    rcases mem_dirsOf.mp hg with ⟨gid, hgid, rfl⟩ | rfl
    · intro hmem
      rw [pathName_toString] at hmem
      change Accepts w (toString gid)
      rcases mem_edited.mp hmem with heq | hmem
      · -- the group that is edited has been accepted
        have haccepts := hgroup.accepts
        by_cases hempty : group = ""
        · rw [hempty] at heq
          exact absurd heq (toString_ne_defaultAccess gid)
        · rwa [heq, show pathName group = group from if_neg hempty]
      · exact (accepts_toString gid).mpr (h gid hgid hmem)
    · exact readable_default

/-- A name that the lists of a user already hold. -/
def Held (w : World) (groups : List ℕ) (part : List String × List String → List String)
    (name : String) : Prop :=
  ∃ g ∈ dirsOf groups, name ∈ part (listed w (pathName g))

theorem mem_collected_fst : name ∈ (collected w (dirsOf groups)).1 ↔ Held w groups Prod.fst name :=
  mem_flatMap

theorem mem_collected_snd : name ∈ (collected w (dirsOf groups)).2 ↔ Held w groups Prod.snd name :=
  mem_flatMap

/-- An edit in a directory that is not read for the user changes nothing for it. -/
theorem held_edited_of_not_canonical {part : List String × List String → List String}
    (hgroup : Names w groups group) (h : ¬ Canonical group) :
    Held (edited w (pathName group) signals controls) groups part name ↔
      Held w groups part name := by
  refine exists_congr fun g => and_congr_right fun hg => ?_
  rw [listed_edited_of_ne (pathName_ne_of_not_canonical hgroup h hg)]

/-- An edit takes effect exactly when the lists are read back, the lists of every group of the
user can be read, and they hold the names. -/
theorem takesEffect_iff_edited (hp : Unprivileged w p) (hgroups : groupsOf w user = some groups)
    (hgroup : Names w groups group) :
    TakesEffect w group signals controls user p ↔
      listed (edited w (pathName group) signals controls) (pathName group) =
          editedLists w signals controls ∧
        (∀ g ∈ dirsOf groups, Readable (edited w (pathName group) signals controls) g) ∧
        (∀ x ∈ signals, Held (edited w (pathName group) signals controls) groups Prod.fst x) ∧
        ∀ x ∈ controls, Held (edited w (pathName group) signals controls) groups Prod.snd x := by
  have hset : setGroupAccess group signals controls w = _ :=
    setGroupAccess_of_accepts hgroup.accepts
  have hget : getGroupAccess group (edited w (pathName group) signals controls) = _ :=
    getGroupAccess_of_readable fun _ => hgroup.accepts
  have hp' : Unprivileged (edited w (pathName group) signals controls) p := hp
  have hgroups' : groupsOf (edited w (pathName group) signals controls) user = some groups :=
    hgroups
  constructor
  · rintro ⟨w', hw', hlists, _, lists, ss, cs, -, -, haccess, -, -, hS, hC⟩
    rw [hset] at hw'
    obtain rfl := (EStateM.Result.ok.inj hw').2
    have hreadable : ∀ g ∈ dirsOf groups,
        Readable (edited w (pathName group) signals controls) g := by
      by_contra hnot
      obtain ⟨e, he⟩ := getUserAccess_of_not_readable hp' hgroups' hnot
      rw [he] at haccess
      cases haccess
    rw [getUserAccess_of_readable hp' hgroups' hreadable] at haccess
    obtain ⟨rfl, rfl⟩ := Prod.mk.inj (EStateM.Result.ok.inj haccess).1
    refine ⟨(EStateM.Result.ok.inj (hget.symm.trans hlists)).1, hreadable, fun x hx => ?_,
      fun x hx => ?_⟩
    · exact mem_collected_fst.mp (mem_pySortedSet.mp (hS x hx))
    · exact mem_collected_snd.mp (mem_pySortedSet.mp (hC x hx))
  · rintro ⟨hlisted, hreadable, hS, hC⟩
    refine ⟨_, hset, hlisted ▸ hget, groups, (dirsOf groups).map fun g =>
      listed (edited w (pathName group) signals controls) (pathName g), _, _, hgroups, ?_,
      getUserAccess_of_readable hp' hgroups' hreadable, ?_, ?_, ?_, ?_⟩
    · refine forall₂_map_right_iff.mpr (forall₂_same.mpr fun g hg => ?_)
      exact getGroupAccess_of_readable (hreadable g hg)
    · rw [flatMap_map]
      rfl
    · rw [flatMap_map]
      rfl
    · exact fun x hx => mem_pySortedSet.mpr (mem_collected_fst.mpr (hS x hx))
    · exact fun x hx => mem_pySortedSet.mpr (mem_collected_snd.mpr (hC x hx))

/-- **An edit of the lists of a group takes effect for a member of the group exactly when** each
name is a line of its own, each group of the user that has a directory is defined, and the group
is spelled as `str` spells its ID or the user held the names before. -/
theorem takesEffect_iff (hp : Unprivileged w p) (hgroups : groupsOf w user = some groups)
    (hgroup : Names w groups group) (hsignals : ∀ x ∈ signals, x ∈ w.platform.signalNames)
    (hcontrols : ∀ x ∈ controls, x ∈ w.platform.controlNames) :
    TakesEffect w group signals controls user p ↔
      (∀ x ∈ signals ++ controls, IsLine x) ∧
        (∀ gid ∈ groups, toString gid ∈ w.config → w.users.hasGid gid = true) ∧
        (Canonical group ∨
          (∀ x ∈ signals, Held w groups Prod.fst x) ∧
            ∀ x ∈ controls, Held w groups Prod.snd x) := by
  rw [takesEffect_iff_edited hp hgroups hgroup, listed_edited_eq_iff hsignals hcontrols,
    readable_edited_iff hgroup]
  refine and_congr_right fun hlines => and_congr_right fun hdefined => ?_
  by_cases hcanonical : Canonical group
  · -- the edited directory is one of those that are read
    refine iff_of_true ?_ (.inl hcanonical)
    have hmem := mem_dirsOf_of_canonical hgroup hcanonical
    have hlisted : listed _ (pathName group) = _ :=
      (listed_edited_eq_iff hsignals hcontrols).mpr hlines
    refine ⟨fun x hx => ⟨group, hmem, ?_⟩, fun x hx => ⟨group, hmem, ?_⟩⟩ <;> rw [hlisted]
    · exact mem_pySortedSet.mpr (mem_append_left _ hx)
    · exact mem_pySortedSet.mpr hx
  · simp only [held_edited_of_not_canonical hgroup hcanonical, or_iff_right hcanonical]

end Edits

/-! ### A group ID with a leading zero -/

/-- A user that is in the group `100`. -/
def memberOfHundred : World :=
  { World.small ((∅ : Dict Pid Proc).insert 10 ⟨1, 1, 3, 10, false⟩) 5 with
    users := ⟨fun _ => some "user", fun _ => some 1, fun _ _ => [100], fun gid => gid == 100⟩ }

theorem unprivileged_memberOfHundred : Unprivileged memberOfHundred 10 :=
  ⟨⟨1, 1, 3, 10, false⟩, rfl, rfl⟩

theorem takesEffect_hundred :
    TakesEffect memberOfHundred "100" ["SIGNAL"] ["CONTROL"] "user" 10 := by
  have hgroup : Names memberOfHundred [100] "100" :=
    .inr ⟨100, mem_singleton_self _, by decide, rfl⟩
  have hlines : ∀ x ∈ ["SIGNAL"] ++ ["CONTROL"], IsLine x := by
    intro x hx
    simp only [cons_append, nil_append, mem_cons, not_mem_nil, or_false] at hx
    rcases hx with rfl | rfl
    · exact ⟨by decide, by decide, by decide, noBreak_of_all (by decide)⟩
    · exact ⟨by decide, by decide, by decide, noBreak_of_all (by decide)⟩
  have hgroups : groupsOf memberOfHundred "user" = some [100] := rfl
  refine (takesEffect_iff unprivileged_memberOfHundred hgroups hgroup (fun x hx => hx)
    fun x hx => hx).mpr ⟨hlines, fun gid _ hmem => ?_, .inl (.inr ⟨100, rfl⟩)⟩
  exact absurd hmem (AList.notMem_empty _)

/-- The lists that are set for the group `0100` are not those of the members of the group `100`. -/
theorem leadingZero_not_effective : ¬ ∀ (w : World) (group : String)
    (signals controls : List String) (user : String) (p : Pid) (groups : List ℕ),
    Unprivileged w p → groupsOf w user = some groups → Names w groups group →
    (∀ x ∈ signals, x ∈ w.platform.signalNames) → (∀ x ∈ controls, x ∈ w.platform.controlNames) →
    TakesEffect w group signals controls user p := by
  intro hall
  have hgroup : Names memberOfHundred [100] "0100" :=
    .inr ⟨100, mem_singleton_self _, by decide, rfl⟩
  have hnot : ¬ Canonical "0100" := by
    rintro (h | ⟨gid, h⟩)
    · exact absurd h (by decide)
    · have hint : pyInt? (toString gid) = some (gid : ℤ) := pyInt?_toString (gid : ℤ)
      rw [← h, show pyInt? "0100" = some 100 by decide] at hint
      obtain rfl : gid = 100 := by exact_mod_cast (Option.some.inj hint).symm
      exact absurd h (by decide)
  have htakes := hall memberOfHundred "0100" ["SIGNAL"] [] "user" 10 [100]
    unprivileged_memberOfHundred rfl hgroup (fun x hx => hx)
    fun x hx => absurd hx not_mem_nil
  have hheld := ((takesEffect_iff_edited unprivileged_memberOfHundred rfl hgroup).mp htakes).2.2.1
    "SIGNAL" (mem_singleton_self _)
  obtain ⟨g, -, hmem⟩ := (held_edited_of_not_canonical hgroup hnot).mp hheld
  exact absurd hmem not_mem_nil

end AccessLists

end Geopm
