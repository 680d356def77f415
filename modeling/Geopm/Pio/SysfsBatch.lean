import Geopm.Lib.LastOf
import Geopm.Lib.Lts
import Geopm.Pio.SysfsIOGroup

/-!
# Batched writes of `SysfsIOGroup`

A pass of a batch performs the operations of the slots that are pending, after those that an earlier
batch has left in the queue.

* `Sysfs.writeBatchRetry_eq` : a pass, if it can be prepared;
* `Sysfs.SettledOn` : the slots of a file that are pending agree on a text, and without such a slot
  the file holds it already;
* `Sysfs.SettledOn.writeBatch`, `Sysfs.settledOn_of_batches` : the files that hold a text after each
  batch are those that are settled on it;
* `Sysfs.writeBatch_holds_iff` : the last adjustment of a file is what it holds after a batch, just
  when it is settled on it;
* `Sysfs.writeBatch_stale` : an adjustment to the value of a slot whose file others have written.
-/

namespace Geopm.Pio

open Prog
open List hiding get modify set

namespace Sysfs

/-! ### The preparation of a pass -/

/-- The text of the value of a slot. -/
def textOf (info : PushedInfo) : String := (info.gen info.value).toOption.getD ""

/-- The value of a slot has a text that fits into its buffer. -/
def Fits (info : PushedInfo) : Prop :=
  ∃ text, info.gen info.value = .ok text ∧ text.length < ioBufferSize

/-- The slot after the preparation. -/
def buffered (info : PushedInfo) : PushedInfo :=
  if info.isPending then { info with buf := textOf info } else info

/-- The operations that are prepared, for the slots from the number `i` on. -/
def newOps : ℕ → List PushedInfo → List WriteOp
  | _, [] => []
  | i, info :: infos =>
    if info.isPending then ⟨i, (textOf info).length + 1⟩ :: newOps (i + 1) infos
    else newOps (i + 1) infos

/-- How many slots before the slot `i` are pending. -/
def rank (infos : List PushedInfo) (i : ℕ) : ℕ := (infos.take i).countP PushedInfo.isPending

/-- Every pending slot can be prepared: its text fits into its buffer, and the queue has room. -/
def CanPrepare (capacity : Option ℕ) (infos : List PushedInfo) (ops : List WriteOp) : Prop :=
  (∀ info ∈ infos, info.isPending = true → Fits info) ∧
    ∀ c ∈ capacity, infos.countP PushedInfo.isPending ≤ c - ops.length

section Preparation

variable {capacity : Option ℕ} {info : PushedInfo} {infos : List PushedInfo} {ops : List WriteOp}
  {op : WriteOp} {i k r : ℕ} {text : String}

theorem textOf_eq (h : info.gen info.value = .ok text) : textOf info = text := by
  simp [textOf, h, Except.toOption]

theorem prepWrites_eq (h : CanPrepare capacity infos ops) :
    prepWrites capacity i infos ops = ⟨infos.map buffered, ops ++ newOps i infos, none⟩ := by
  induction infos generalizing i ops with
  | nil => simp [prepWrites, newOps]
  | cons info infos ih =>
    obtain ⟨hfits, hroom⟩ := h
    cases hpending : info.isPending with
    | false =>
      have hrest : CanPrepare capacity infos ops :=
        ⟨fun info' hinfo => hfits info' (mem_cons_of_mem _ hinfo), fun c hc => by
          simpa [countP_cons, hpending] using hroom c hc⟩
      simp [prepWrites, newOps, buffered, hpending, ih hrest]
    | true =>
      obtain ⟨text, hgen, hlength⟩ := hfits info mem_cons_self hpending
      have hcount : ∀ c ∈ capacity, infos.countP PushedInfo.isPending + 1 ≤ c - ops.length :=
        fun c hc => by simpa [countP_cons, hpending] using hroom c hc
      have hfree : ¬ ∃ c ∈ capacity, c ≤ ops.length := by
        rintro ⟨c, hc, hle⟩
        have := hcount c hc
        omega
      have hrest : CanPrepare capacity infos (ops ++ [⟨i, text.length + 1⟩]) := by
        refine ⟨fun info' hinfo => hfits info' (mem_cons_of_mem _ hinfo), fun c hc => ?_⟩
        have := hcount c hc
        rw [length_append, length_singleton]
        omega
      rw [prepWrites, if_pos hpending, hgen]
      dsimp only
      rw [if_neg (Nat.not_le.mpr hlength), if_neg hfree, ih hrest]
      simp [newOps, buffered, hpending, textOf_eq hgen]

theorem canPrepare_of_prepWrites (h : (prepWrites capacity i infos ops).error = none) :
    CanPrepare capacity infos ops := by
  induction infos generalizing i ops with
  | nil => exact ⟨fun _ hinfo => absurd hinfo not_mem_nil, fun _ _ => Nat.zero_le _⟩
  | cons info infos ih =>
    cases hpending : info.isPending with
    | false =>
      rw [prepWrites, if_neg (by simp [hpending])] at h
      obtain ⟨hfits, hroom⟩ := ih h
      refine ⟨fun info' hinfo hpending' => ?_, fun c hc => ?_⟩
      · rcases mem_cons.mp hinfo with rfl | hinfo
        · rw [hpending] at hpending'
          cases hpending'
        · exact hfits info' hinfo hpending'
      · simpa [countP_cons, hpending] using hroom c hc
    | true =>
      rw [prepWrites, if_pos hpending] at h
      cases hgen : info.gen info.value with
      | error e =>
        rw [hgen] at h
        cases h
      | ok text =>
        rw [hgen] at h
        dsimp only at h
        split_ifs at h with hlength hfull
        obtain ⟨hfits, hroom⟩ := ih h
        refine ⟨fun info' hinfo hpending' => ?_, fun c hc => ?_⟩
        · rcases mem_cons.mp hinfo with rfl | hinfo
          · exact ⟨text, hgen, Nat.not_le.mp hlength⟩
          · exact hfits info' hinfo hpending'
        · have hlt : ops.length < c := Nat.not_le.mp fun hle => hfull ⟨c, hc, hle⟩
          have hrest := hroom c hc
          rw [length_append, length_singleton] at hrest
          rw [countP_cons_of_pos hpending]
          omega

/-- The operation of a pending slot is found by the rank of the slot. -/
theorem newOps_rank (hi : infos[i]? = some info) (hpending : info.isPending = true) :
    (newOps k infos)[rank infos i]? = some ⟨k + i, (textOf info).length + 1⟩ := by
  induction infos generalizing i k with
  | nil => cases hi
  | cons info' infos ih =>
    cases i with
    | zero =>
      obtain rfl : info' = info := by simpa using hi
      simp [newOps, rank, hpending]
    | succ i =>
      have hrest := ih (k := k + 1) (by simpa using hi)
      unfold rank at hrest ⊢
      rw [take_succ_cons, countP_cons, newOps]
      cases info'.isPending with
      | false => simpa [Nat.add_assoc, Nat.add_comm 1 i] using hrest
      | true => simpa [Nat.add_assoc, Nat.add_comm 1 i] using hrest

theorem exists_of_newOps (h : (newOps k infos)[r]? = some op) :
    ∃ i info, infos[i]? = some info ∧ info.isPending = true ∧ r = rank infos i ∧
      op = ⟨k + i, (textOf info).length + 1⟩ := by
  induction infos generalizing k r with
  | nil => cases h
  | cons info infos ih =>
    have hlift : ∀ r', (newOps (k + 1) infos)[r']? = some op →
        ∃ i info', infos[i]? = some info' ∧ info'.isPending = true ∧ r' = rank infos i ∧
          op = ⟨k + (i + 1), (textOf info').length + 1⟩ := by
      intro r' hr
      obtain ⟨i, info', hi, hpending, hrank, hop⟩ := ih hr
      exact ⟨i, info', hi, hpending, hrank, by rw [hop, Nat.add_assoc, Nat.add_comm 1 i]⟩
    cases hpending : info.isPending with
    | false =>
      rw [newOps, if_neg (by simp [hpending])] at h
      obtain ⟨i, info', hi, hpending', rfl, hop⟩ := hlift r h
      exact ⟨i + 1, info', by simpa using hi, hpending', by simp [rank, hpending], hop⟩
    | true =>
      rw [newOps, if_pos hpending] at h
      cases r with
      | zero => exact ⟨0, info, rfl, hpending, by simp [rank], by simpa using h.symm⟩
      | succ r =>
        obtain ⟨i, info', hi, hpending', rfl, hop⟩ := hlift r (by simpa using h)
        exact ⟨i + 1, info', by simpa using hi, hpending', by simp [rank, hpending], hop⟩

theorem countP_le_of_getElem? {α : Type} {p : α → Bool} {xs ys : List α}
    (h : ∀ (i : ℕ) y, ys[i]? = some y → p y = true → ∃ x, xs[i]? = some x ∧ p x = true) :
    ys.countP p ≤ xs.countP p := by
  induction ys generalizing xs with
  | nil => exact Nat.zero_le _
  | cons y ys ih =>
    cases xs with
    | nil =>
      refine (countP_eq_zero.mpr fun y' hy' hp => ?_).le
      obtain ⟨i, hi⟩ := mem_iff_getElem?.mp hy'
      obtain ⟨x, hx, -⟩ := h i y' hi hp
      cases hx
    | cons x xs =>
      have hrest := ih fun i y' hi => h (i + 1) y' hi
      rw [countP_cons, countP_cons]
      cases hy : p y with
      | false => simpa using hrest.trans (Nat.le_add_right _ _)
      | true =>
        obtain ⟨x', hx', hp⟩ := h 0 y rfl hy
        obtain rfl : x = x' := by simpa using hx'
        simpa [hp] using hrest

theorem nbytes_le_of_prepWrites (h : op ∈ (prepWrites capacity i infos ops).operations) :
    op ∈ ops ∨ op.nbytes ≤ ioBufferSize := by
  induction infos generalizing i ops with
  | nil => exact .inl h
  | cons info infos ih =>
    cases hpending : info.isPending with
    | false =>
      rw [prepWrites, if_neg (by simp [hpending])] at h
      exact ih h
    | true =>
      rw [prepWrites, if_pos hpending] at h
      cases hgen : info.gen info.value with
      | error e =>
        rw [hgen] at h
        exact .inl h
      | ok text =>
        rw [hgen] at h
        dsimp only at h
        split_ifs at h with hlength
        · exact .inl h
        · exact .inl h
        · rcases ih h with hmem | hle
          · rcases mem_append.mp hmem with hmem | hmem
            · exact .inl hmem
            · rw [mem_singleton.mp hmem]
              exact .inr (Nat.not_le.mp hlength)
          · exact .inr hle

end Preparation

/-! ### The operations of a pass -/

/-- The result of an operation on the slot `i`. -/
def resultOn (result : ℕ → WriteResult) (i : ℕ) (x : WriteOp × ℕ) : Option WriteResult :=
  if x.1.info = i then some (result x.2) else none

/-- A slot with the result of an operation, if there is one. -/
def returned (r : Option WriteResult) (info : PushedInfo) : PushedInfo :=
  { info with lastIoReturn := r.getD info.lastIoReturn }

/-- What an operation leaves in a file, if it writes it. -/
def written (infos : List PushedInfo) (result : ℕ → WriteResult) (path : String)
    (x : WriteOp × ℕ) : Option String :=
  match infos[x.1.info]?, result x.2 with
  | some info, .wrote bytes =>
    if info.fd = path then some (firstBytes info.buf (min bytes x.1.nbytes)) else none
  | _, _ => none

section Submission

variable {result : ℕ → WriteResult} {infos : List PushedInfo} {files : String → SysfsFile}
  {xs : List (WriteOp × ℕ)} {i : ℕ} {path : String}

theorem resultOn_of_ne {x : WriteOp × ℕ} (h : x.1.info ≠ i) : resultOn result i x = none :=
  if_neg h

/-- The slots have the results of their last operations. -/
theorem foldl_perform_fst : (xs.foldl (perform result) (infos, files)).1[i]? =
    infos[i]?.map (returned (lastOf (resultOn result i) xs)) := by
  induction xs using List.reverseRecOn with
  | nil =>
    change infos[i]? = _
    cases infos[i]? with
    | none => rfl
    | some info => rfl
  | append_singleton xs x ih =>
    rw [List.foldl_append, lastOf_concat]
    generalize xs.foldl (perform result) (infos, files) = y at ih ⊢
    change (perform result y x).1[i]? = _
    unfold perform
    by_cases hx : x.1.info = i
    · subst hx
      rw [ih, resultOn, if_pos rfl]
      cases hinfo : infos[x.1.info]? with
      | none => simp [ih, hinfo]
      | some info => simp [ih, hinfo, returned]
    · rw [resultOn_of_ne hx, Option.none_or, ← ih]
      cases y.1[x.1.info]? with
      | none => rfl
      | some info => simp [hx]

theorem foldl_perform_snd : ((xs.foldl (perform result) (infos, files)).2 path).contents =
    (lastOf (written infos result path) xs).getD (files path).contents := by
  induction xs using List.reverseRecOn with
  | nil => rfl
  | append_singleton xs x ih =>
    have hslot := @foldl_perform_fst result infos files xs x.1.info
    rw [List.foldl_append, lastOf_concat]
    generalize xs.foldl (perform result) (infos, files) = y at ih hslot ⊢
    change ((perform result y x).2 path).contents = _
    unfold perform
    rw [hslot]
    cases hinfo : infos[x.1.info]? with
    | none => simpa [written, hinfo] using ih
    | some info =>
      cases hresult : result x.2 with
      | failed errno => simpa [pwrite, written, hinfo, hresult] using ih
      | wrote bytes =>
        by_cases hpath : info.fd = path
        · simp [pwrite, written, returned, hinfo, hresult, hpath]
        · simp [pwrite, written, returned, hinfo, hresult, hpath, Ne.symm hpath, ih]

end Submission

/-! ### A pass -/

/-- The queue of the writer, or that of a new one. -/
def writer (s : Sysfs) : BatchWriter :=
  s.group.batchWriter.getD ⟨s.group.pushedInfoControl.length, []⟩

/-- The operations of a pass. -/
def passOps (s : Sysfs) : List WriteOp := s.writer.operations ++ newOps 0 s.group.pushedInfoControl

/-- The slots and the files after the submission. -/
def submitted (answers : PassAnswers) (s : Sysfs) : List PushedInfo × (String → SysfsFile) :=
  submit answers.result s.passOps (s.group.pushedInfoControl.map buffered) s.files

/-- The state after a pass that has been prepared. -/
def passed (answers : PassAnswers) (s : Sysfs) : Sysfs :=
  { s with
    group := { s.group with
      isBatchWrite := true
      pushedInfoControl := (s.submitted answers).1.map PushedInfo.collected
      batchWriter := some ⟨s.writer.entries, []⟩ }
    files := (s.submitted answers).2 }

/-- A batch can be prepared. -/
def CanWrite (capacity : ℕ → Option ℕ) (s : Sysfs) : Prop :=
  CanPrepare (capacity s.writer.entries) s.group.pushedInfoControl s.writer.operations

section Pass

variable {capacity : ℕ → Option ℕ} {answers : PassAnswers} {isRetry b : Bool} {s s' : Sysfs}

/-- There is a writer, or one can be made. -/
def HasWriter (answers : PassAnswers) (s : Sysfs) : Prop :=
  s.group.batchWriter = none → answers.makeError = none

theorem makeWriter_ok {w : BatchWriter} (h : makeWriter answers s = .ok w) :
    w = s.writer ∧ s.HasWriter answers := by
  unfold makeWriter at h
  unfold writer HasWriter
  cases hwriter : s.group.batchWriter with
  | some w' =>
    rw [hwriter] at h
    exact ⟨(Except.ok.inj h).symm, fun hnone => (nomatch hnone)⟩
  | none =>
    rw [hwriter] at h
    cases herror : answers.makeError with
    | some e =>
      rw [herror] at h
      cases h
    | none =>
      rw [herror] at h
      exact ⟨(Except.ok.inj h).symm, fun _ => rfl⟩

theorem writeBatchRetry_eq (hdo : s.group.doBatchWrite = true) (hwriter : s.HasWriter answers)
    (hcan : s.CanWrite capacity) :
    writeBatchRetry capacity answers isRetry s =
      if failedNames (s.submitted answers).1 ≠ [] ∧ isRetry = true then
        .error ⟨"SysfsIOGroup failed to write controls: \"" ++
          "\", \"".intercalate (failedNames (s.submitted answers).1) ++ "\"", [],
          answers.lastErrno⟩ (s.passed answers)
      else .ok (decide (failedNames (s.submitted answers).1 ≠ [])) (s.passed answers) := by
  have hprepared := prepWrites_eq (i := 0) hcan
  have hmake : makeWriter answers s = .ok s.writer := by
    unfold makeWriter writer
    cases hw : s.group.batchWriter with
    | some writer => rfl
    | none =>
      rw [hwriter hw]
      rfl
  unfold writeBatchRetry
  refine (bind_of_ok rfl).trans ((bind_of_ok rfl).trans ?_)
  change (if s.group.doBatchWrite = false then _ else _ : EStateM Exception Sysfs Bool) _ = _
  rw [if_neg (by simp [hdo])]
  refine (bind_of_ok (congrFun (congrArg ret hmake) _)).trans ?_
  dsimp only
  refine (bind_of_ok rfl).trans ?_
  rw [hprepared]
  refine (bind_of_ok rfl).trans ?_
  by_cases hfailed : failedNames (s.submitted answers).1 ≠ [] ∧ isRetry = true
  · rw [if_pos hfailed]
    exact (congrFun (if_pos hfailed) _).trans rfl
  · rw [if_neg hfailed]
    exact (congrFun (if_neg hfailed) _).trans rfl

theorem canWrite_of_ok (hdo : s.group.doBatchWrite = true)
    (h : writeBatchRetry capacity answers isRetry s = .ok b s') :
    s.HasWriter answers ∧ s.CanWrite capacity := by
  have hwp : wp (writeBatchRetry capacity answers isRetry)
      (fun _ _ => s.HasWriter answers ∧ s.CanWrite capacity) (fun _ _ => True) s := by
    unfold writeBatchRetry
    rw [wp_bind, wp_modify, wp_bind, wp_get, wp_ite]
    refine ⟨fun hno => absurd (hdo.symm.trans hno) (by simp), fun _ => ?_⟩
    rw [wp_bind]
    change wp (ret (makeWriter answers s)) _ _ _
    cases hmk : makeWriter answers s with
    | error e => trivial
    | ok w =>
      obtain ⟨rfl, hwriter⟩ := makeWriter_ok hmk
      refine wp_ret rfl ?_
      rw [wp_bind, wp_set]
      dsimp only
      cases herror : (prepWrites (capacity s.writer.entries) 0 s.group.pushedInfoControl
          s.writer.operations).error with
      | some e => trivial
      | none =>
        have hcan : s.CanWrite capacity := canPrepare_of_prepWrites herror
        exact wp_mono (wp_const.mpr ⟨hwriter, hcan⟩) (fun _ _ h => h) fun _ _ _ => trivial
  unfold wp at hwp
  rwa [h] at hwp

theorem writeBatchRetry_ok (hdo : s.group.doBatchWrite = true)
    (h : writeBatchRetry capacity answers isRetry s = .ok b s') :
    s.CanWrite capacity ∧ s' = s.passed answers ∧
      b = decide (failedNames (s.submitted answers).1 ≠ []) ∧
      (isRetry = true → failedNames (s.submitted answers).1 = []) := by
  obtain ⟨hwriter, hcan⟩ := canWrite_of_ok hdo h
  rw [writeBatchRetry_eq hdo hwriter hcan] at h
  split_ifs at h with hfailed
  obtain ⟨rfl, rfl⟩ := (EStateM.Result.ok.injEq ..).mp h
  exact ⟨hcan, rfl, rfl, fun hretry => by_contra fun hne => hfailed ⟨hne, hretry⟩⟩

/-! #### The slots after a pass -/

/-- What a pass makes of the slot `i`. -/
def afterPass (answers : PassAnswers) (s : Sysfs) (i : ℕ) (info : PushedInfo) : PushedInfo :=
  (returned (lastOf (resultOn answers.result i) s.passOps.zipIdx) (buffered info)).collected

/-- The result of the operation that a pass performs for a pending slot. -/
def resultAt (answers : PassAnswers) (s : Sysfs) (i : ℕ) : WriteResult :=
  answers.result (s.writer.operations.length + rank s.group.pushedInfoControl i)

variable {i k : ℕ} {info : PushedInfo} {op : WriteOp}

theorem passed_getElem? : (s.passed answers).group.pushedInfoControl[i]? =
    s.group.pushedInfoControl[i]?.map (s.afterPass answers i) := by
  change ((s.submitted answers).1.map PushedInfo.collected)[i]? = _
  unfold submitted submit
  rw [getElem?_map, foldl_perform_fst, getElem?_map, Option.map_map, Option.map_map]
  rfl

theorem exists_of_mem_passed {info' : PushedInfo}
    (h : info' ∈ (s.passed answers).group.pushedInfoControl) : ∃ i info,
      s.group.pushedInfoControl[i]? = some info ∧ s.afterPass answers i info = info' := by
  obtain ⟨i, hi⟩ := mem_iff_getElem?.mp h
  rw [passed_getElem?, Option.map_eq_some_iff] at hi
  obtain ⟨info, hi, rfl⟩ := hi
  exact ⟨i, info, hi, rfl⟩

theorem passOps_rank (hi : s.group.pushedInfoControl[i]? = some info)
    (hpending : info.isPending = true) :
    s.passOps[s.writer.operations.length + rank s.group.pushedInfoControl i]? =
      some ⟨i, (textOf info).length + 1⟩ := by
  unfold passOps
  rw [getElem?_append_right (Nat.le_add_right _ _), Nat.add_sub_cancel_left,
    newOps_rank hi hpending, Nat.zero_add]

/-- An operation is one that has been in the queue, or that of a pending slot. -/
theorem passOps_cases (h : s.passOps[k]? = some op) :
    s.writer.operations[k]? = some op ∨ ∃ i info, s.group.pushedInfoControl[i]? = some info ∧
      info.isPending = true ∧
      k = s.writer.operations.length + rank s.group.pushedInfoControl i ∧
      op = ⟨i, (textOf info).length + 1⟩ := by
  unfold passOps at h
  rcases Nat.lt_or_ge k s.writer.operations.length with hlt | hge
  · exact .inl (by rwa [getElem?_append_left hlt] at h)
  · rw [getElem?_append_right hge] at h
    obtain ⟨i, info, hi, hpending, hrank, hop⟩ := exists_of_newOps h
    exact .inr ⟨i, info, hi, hpending, by omega, by rw [hop, Nat.zero_add]⟩

theorem exists_of_mem_zipIdx_newOps {x : WriteOp × ℕ}
    (hx : x ∈ (newOps 0 s.group.pushedInfoControl).zipIdx s.writer.operations.length) :
    ∃ i info, s.group.pushedInfoControl[i]? = some info ∧ info.isPending = true ∧
      x = (⟨i, (textOf info).length + 1⟩,
        s.writer.operations.length + rank s.group.pushedInfoControl i) := by
  obtain ⟨op, k⟩ := x
  obtain ⟨hle, hop⟩ := mem_zipIdx_iff_le_and_getElem?_sub.mp hx
  obtain ⟨i, info, hi, hpending, hrank, rfl⟩ := exists_of_newOps hop
  refine ⟨i, info, hi, hpending, Prod.ext ?_ ?_⟩
  · rw [Nat.zero_add]
  · dsimp only at hle hrank ⊢
    omega

theorem lastOf_resultOn (hi : s.group.pushedInfoControl[i]? = some info)
    (hpending : info.isPending = true) :
    lastOf (resultOn answers.result i) s.passOps.zipIdx = some (s.resultAt answers i) := by
  have hown := passOps_rank hi hpending
  set own := s.writer.operations.length + rank s.group.pushedInfoControl i with howneq
  have hat : s.passOps.zipIdx[own]? = some (⟨i, (textOf info).length + 1⟩, own) := by
    rw [getElem?_zipIdx, hown, Option.map_some, Nat.zero_add]
  refine lastOf_eq_some_of_getElem? hat (if_pos rfl) fun j x hj hx => ?_
  rw [getElem?_zipIdx, Option.map_eq_some_iff] at hx
  obtain ⟨op, hop, rfl⟩ := hx
  refine resultOn_of_ne fun hsame => ?_
  -- each slot has at most one operation of its own, and those in the queue come first
  rcases passOps_cases hop with hold | ⟨i', info', -, -, rfl, rfl⟩
  · have := (List.getElem?_eq_some_iff.mp hold).1
    omega
  · obtain rfl : i' = i := hsame
    omega

theorem isPending_collected :
    info.collected.isPending = (info.isPending && info.lastIoReturn.isFailed) := by
  unfold PushedInfo.collected
  split_ifs with hdone
  · simp only [Bool.and_eq_true, Bool.not_eq_true'] at hdone
    simp [PushedInfo.isPending, hdone.2]
  · cases hpending : info.isPending with
    | false => rfl
    | true => simpa [hpending] using hdone

theorem buffered_buf (hpending : info.isPending = true) : (buffered info).buf = textOf info := by
  simp [buffered, hpending]

theorem buffered_eq (hpending : info.isPending = false) : buffered info = info := by
  simp [buffered, hpending]

theorem buffered_fd : (buffered info).fd = info.fd := by
  unfold buffered
  split_ifs <;> rfl

theorem afterPass_same : (s.afterPass answers i info).fd = info.fd ∧
    (s.afterPass answers i info).gen = info.gen ∧
    (s.afterPass answers i info).value = info.value := by
  unfold afterPass PushedInfo.collected returned buffered
  split_ifs <;> exact ⟨rfl, rfl, rfl⟩

theorem isPending_afterPass (hi : s.group.pushedInfoControl[i]? = some info) :
    (s.afterPass answers i info).isPending =
      (info.isPending && (s.resultAt answers i).isFailed) := by
  unfold afterPass
  rw [isPending_collected]
  have hsame : ∀ r, (returned r (buffered info)).isPending = info.isPending := by
    intro r
    unfold returned buffered
    split_ifs <;> rfl
  rw [hsame]
  cases hpending : info.isPending with
  | false => rfl
  | true =>
    rw [lastOf_resultOn hi hpending]
    rfl

theorem failedNames_eq_nil : failedNames (s.submitted answers).1 = [] ↔
    ∀ info ∈ (s.passed answers).group.pushedInfoControl, info.isPending = false := by
  have hcollected : ∀ info : PushedInfo,
      (info.isPending && info.lastIoReturn.isFailed) = info.collected.isPending :=
    fun _ => isPending_collected.symm
  change _ ↔ ∀ info ∈ (s.submitted answers).1.map PushedInfo.collected, _
  unfold failedNames
  rw [map_eq_nil_iff, filter_eq_nil_iff, forall_mem_map]
  simp only [hcollected, Bool.not_eq_true]

/-! #### The files after a pass -/

variable {path text : String}

theorem firstBytes_of_le {n : ℕ} (h : text.length ≤ n) : firstBytes text n = text := by
  rw [← String.length_toList] at h
  rw [firstBytes, take_of_length_le h, String.ofList_toList]

theorem passed_contents : ((s.passed answers).files path).contents =
    (lastOf (written (s.group.pushedInfoControl.map buffered) answers.result path)
      s.passOps.zipIdx).getD (s.files path).contents :=
  foldl_perform_snd

theorem written_queued {bytes : ℕ} (hi : s.group.pushedInfoControl[op.info]? = some info)
    (hpending : info.isPending = false) (hresult : answers.result k = .wrote bytes)
    (hbytes : op.nbytes ≤ bytes) :
    written (s.group.pushedInfoControl.map buffered) answers.result info.fd (op, k) =
      some (firstBytes info.buf op.nbytes) := by
  simp [written, hi, hresult, buffered_eq hpending, hbytes]

theorem written_own (hwhole : ∀ k, (answers.result k).Whole)
    (hi : s.group.pushedInfoControl[i]? = some info) (hpending : info.isPending = true)
    (hfits : Fits info) (c : String) :
    written (s.group.pushedInfoControl.map buffered) answers.result path
        (⟨i, (textOf info).length + 1⟩,
          s.writer.operations.length + rank s.group.pushedInfoControl i) = some c ↔
      (s.resultAt answers i).isFailed = false ∧ info.fd = path ∧ c = textOf info := by
  obtain ⟨text, hgen, hlength⟩ := hfits
  have htext := textOf_eq hgen
  unfold written resultAt
  rw [getElem?_map, hi, Option.map_some]
  cases hresult : answers.result
      (s.writer.operations.length + rank s.group.pushedInfoControl i) with
  | failed errno => simp [WriteResult.isFailed]
  | wrote bytes =>
    have hbytes := hwhole _ bytes hresult
    have hfirst : firstBytes text (min bytes (text.length + 1)) = text :=
      firstBytes_of_le (by omega)
    simp only [buffered_fd, buffered_buf hpending, htext, hfirst, WriteResult.isFailed]
    simp [eq_comm]

/-- No slot of the file is pending. -/
def Idle (path : String) (s : Sysfs) : Prop :=
  ∀ info ∈ s.group.pushedInfoControl, info.fd = path → info.isPending = false

/-- **A file is settled on a text**: the pending slots of the file have it, and if no slot is
pending the file holds it, and so do the operations that have been left in the queue. -/
structure SettledOn (path text : String) (s : Sysfs) : Prop where
  pending : ∀ info ∈ s.group.pushedInfoControl, info.fd = path → info.isPending = true →
    info.gen info.value = .ok text
  held : s.Idle path → (s.files path).contents = text
  queued : s.Idle path → ∀ op ∈ s.writer.operations, ∀ info,
    s.group.pushedInfoControl[op.info]? = some info → info.fd = path →
      firstBytes info.buf op.nbytes = text

/-- If no slot of the file is pending, only the queue writes it. -/
theorem contents_of_idle (hwhole : ∀ k, (answers.result k).Whole) (hcan : s.CanWrite capacity)
    (hidle : s.Idle path) : ((s.passed answers).files path).contents =
      (lastOf (written (s.group.pushedInfoControl.map buffered) answers.result path)
        s.writer.operations.zipIdx).getD (s.files path).contents := by
  have hown : lastOf (written (s.group.pushedInfoControl.map buffered) answers.result path)
      ((newOps 0 s.group.pushedInfoControl).zipIdx s.writer.operations.length) = none := by
    rw [lastOf_eq_none_iff]
    intro x hx
    by_contra hne
    obtain ⟨c, hc⟩ := Option.ne_none_iff_exists'.mp hne
    obtain ⟨i, info, hi, hpending, rfl⟩ := exists_of_mem_zipIdx_newOps hx
    have hmem := mem_of_getElem? hi
    obtain ⟨-, hfd, -⟩ := (written_own hwhole hi hpending (hcan.1 info hmem hpending) c).mp hc
    rw [hidle info hmem hfd] at hpending
    cases hpending
  rw [passed_contents, passOps, zipIdx_append, lastOf_append, Nat.zero_add, hown,
    Option.none_or]

theorem SettledOn.contents_of_idle (h : s.SettledOn path text)
    (hwhole : ∀ k, (answers.result k).Whole)
    (hqueue : ∀ op ∈ s.writer.operations, op.nbytes ≤ ioBufferSize) (hcan : s.CanWrite capacity)
    (hidle : s.Idle path) : ((s.passed answers).files path).contents = text := by
  rw [Sysfs.contents_of_idle hwhole hcan hidle, h.held hidle]
  refine lastOf_getD_of_forall ?_
  rintro ⟨op, k⟩ hx c hc
  have hop := mem_of_getElem? (mem_zipIdx_iff_getElem?.mp hx)
  cases hi : s.group.pushedInfoControl[op.info]? with
  | none => simp [written, hi] at hc
  | some info =>
    cases hresult : answers.result k with
    | failed errno => simp [written, hi, hresult] at hc
    | wrote bytes =>
      have hfd : info.fd = path := by
        by_contra hne
        simp [written, hi, hresult, buffered_fd, hne] at hc
      subst hfd
      rw [written_queued hi (hidle info (mem_of_getElem? hi) rfl) hresult
        ((hqueue op hop).trans (hwhole k bytes hresult))] at hc
      exact (Option.some.inj hc).symm.trans (h.queued hidle op hop info hi rfl)

theorem SettledOn.contents_of_written (h : s.SettledOn path text)
    (hwhole : ∀ k, (answers.result k).Whole) (hcan : s.CanWrite capacity)
    (hi : s.group.pushedInfoControl[i]? = some info) (hfd : info.fd = path)
    (hpending : info.isPending = true) (hwritten : (s.resultAt answers i).isFailed = false) :
    ((s.passed answers).files path).contents = text := by
  have htext : ∀ info ∈ s.group.pushedInfoControl, info.fd = path → info.isPending = true →
      textOf info = text := fun info hinfo hfd hpending =>
    textOf_eq (h.pending info hinfo hfd hpending)
  have hown : lastOf (written (s.group.pushedInfoControl.map buffered) answers.result path)
      ((newOps 0 s.group.pushedInfoControl).zipIdx s.writer.operations.length) = some text := by
    refine lastOf_eq_some_of_forall ?_ ?_
    · rintro x hx c hc
      obtain ⟨j, info', hj, hpending', rfl⟩ := exists_of_mem_zipIdx_newOps hx
      have hmem := mem_of_getElem? hj
      obtain ⟨-, hfd', rfl⟩ :=
        (written_own hwhole hj hpending' (hcan.1 info' hmem hpending') c).mp hc
      exact htext info' hmem hfd' hpending'
    · have hmem := mem_of_getElem? hi
      have hmine : (⟨i, (textOf info).length + 1⟩,
          s.writer.operations.length + rank s.group.pushedInfoControl i) ∈
          (newOps 0 s.group.pushedInfoControl).zipIdx s.writer.operations.length :=
        mk_add_mem_zipIdx_iff_getElem?.mpr (by rw [newOps_rank hi hpending, Nat.zero_add])
      refine ⟨_, hmine, ?_⟩
      rw [(written_own hwhole hi hpending (hcan.1 info hmem hpending) _).mpr ⟨hwritten, hfd, rfl⟩]
      exact Option.some_ne_none _
  rw [passed_contents, passOps, zipIdx_append, lastOf_append, Nat.zero_add, hown]
  rfl

theorem SettledOn.passed (h : s.SettledOn path text) (hwhole : ∀ k, (answers.result k).Whole)
    (hqueue : ∀ op ∈ s.writer.operations, op.nbytes ≤ ioBufferSize)
    (hcan : s.CanWrite capacity) : (s.passed answers).SettledOn path text := by
  refine ⟨fun info' hinfo' hfd hpending => ?_, fun hidle => ?_, fun _ op hop => ?_⟩
  · obtain ⟨i, info, hi, rfl⟩ := exists_of_mem_passed hinfo'
    obtain ⟨hfd', hgen, hvalue⟩ := @afterPass_same answers s i info
    rw [isPending_afterPass hi, Bool.and_eq_true] at hpending
    rw [hgen, hvalue]
    exact h.pending info (mem_of_getElem? hi) (hfd'.symm.trans hfd) hpending.1
  · by_cases hbefore : s.Idle path
    · exact h.contents_of_idle hwhole hqueue hcan hbefore
    · obtain ⟨info, hinfo, hfd, hpending⟩ : ∃ info ∈ s.group.pushedInfoControl,
          info.fd = path ∧ info.isPending = true := by
        by_contra hnone
        exact hbefore fun info hinfo hfd => Bool.eq_false_iff.mpr fun hpending =>
          hnone ⟨info, hinfo, hfd, hpending⟩
      obtain ⟨i, hi⟩ := mem_iff_getElem?.mp hinfo
      refine h.contents_of_written hwhole hcan hi hfd hpending ?_
      have hafter : (s.passed answers).group.pushedInfoControl[i]? =
          some (s.afterPass answers i info) := by
        rw [passed_getElem?, hi, Option.map_some]
      have hdone := hidle _ (mem_of_getElem? hafter) (afterPass_same.1.trans hfd)
      rwa [isPending_afterPass hi, hpending, Bool.true_and] at hdone
  · exact absurd hop not_mem_nil

theorem failedNames_eq_nil_iff : failedNames (s.submitted answers).1 = [] ↔
    ∀ i info, s.group.pushedInfoControl[i]? = some info → info.isPending = true →
      (s.resultAt answers i).isFailed = false := by
  rw [failedNames_eq_nil]
  constructor
  · intro h i info hi hpending
    have hafter : (s.passed answers).group.pushedInfoControl[i]? =
        some (s.afterPass answers i info) := by
      rw [passed_getElem?, hi, Option.map_some]
    have hdone := h _ (mem_of_getElem? hafter)
    rwa [isPending_afterPass hi, hpending, Bool.true_and] at hdone
  · intro h info' hinfo'
    obtain ⟨i, info, hi, rfl⟩ := exists_of_mem_passed hinfo'
    rw [isPending_afterPass hi]
    cases hpending : info.isPending with
    | false => rfl
    | true => exact h i info hi hpending

theorem rank_injective {j : ℕ} {info' : PushedInfo}
    (hi : s.group.pushedInfoControl[i]? = some info) (hpending : info.isPending = true)
    (hj : s.group.pushedInfoControl[j]? = some info') (hpending' : info'.isPending = true)
    (h : rank s.group.pushedInfoControl i = rank s.group.pushedInfoControl j) : i = j := by
  have hop := passOps_rank hi hpending
  rw [h, passOps_rank hj hpending'] at hop
  exact congrArg WriteOp.info (Option.some.inj hop).symm

theorem CanWrite.passed (h : s.CanWrite capacity) : (s.passed answers).CanWrite capacity := by
  refine ⟨fun info' hinfo' hpending => ?_, fun c hc => ?_⟩
  · obtain ⟨i, info, hi, rfl⟩ := exists_of_mem_passed hinfo'
    obtain ⟨-, hgen, hvalue⟩ := @afterPass_same answers s i info
    rw [isPending_afterPass hi, Bool.and_eq_true] at hpending
    unfold Fits
    rw [hgen, hvalue]
    exact h.1 info (mem_of_getElem? hi) hpending.1
  · refine le_trans ?_ ((h.2 c hc).trans (Nat.sub_le _ _))
    refine countP_le_of_getElem? fun i info' hi hpending => ?_
    rw [passed_getElem?, Option.map_eq_some_iff] at hi
    obtain ⟨info, hi, rfl⟩ := hi
    rw [isPending_afterPass hi, Bool.and_eq_true] at hpending
    exact ⟨info, hi, hpending.1⟩

end Pass

/-! ### Batches -/

section Batch

variable {capacity : ℕ → Option ℕ} {answers : BatchAnswers} {s s' : Sysfs} {path text : String}
  {info : PushedInfo} {setting : Double}

/-- Every write fails or takes the whole of a buffer. -/
def BatchAnswers.Whole (answers : BatchAnswers) : Prop :=
  (∀ k, (answers.first.result k).Whole) ∧ ∀ k, (answers.retry.result k).Whole

/-- The file of a slot holds the text of a setting. -/
def Holds (info : PushedInfo) (setting : Double) (files : String → SysfsFile) : Prop :=
  ∃ text, info.gen setting = .ok text ∧ (files info.fd).contents = text

/-- The history is empty. -/
def cleared (s : Sysfs) : Sysfs := { s with since := [] }

/-- A batch is one pass, or two if the first one fails for a slot. -/
theorem writeBatch_ok (hdo : s.group.doBatchWrite = true)
    (h : writeBatch capacity answers s = .ok () s') :
    s.CanWrite capacity ∧
      (failedNames (s.submitted answers.first).1 = [] ∧ s' = (s.passed answers.first).cleared ∨
        failedNames ((s.passed answers.first).submitted answers.retry).1 = [] ∧
          s' = ((s.passed answers.first).passed answers.retry).cleared) := by
  unfold writeBatch at h
  cases hfirst : writeBatchRetry capacity answers.first false s with
  | error e s₁ =>
    rw [bind_of_error hfirst] at h
    cases h
  | ok b s₁ =>
    obtain ⟨hcan, rfl, rfl, -⟩ := writeBatchRetry_ok hdo hfirst
    rw [bind_of_ok hfirst] at h
    refine ⟨hcan, ?_⟩
    by_cases hnames : failedNames (s.submitted answers.first).1 = []
    · refine .inl ⟨hnames, ?_⟩
      rw [decide_eq_false (not_not.mpr hnames)] at h
      cases h
      rfl
    · rw [decide_eq_true hnames] at h
      cases hretry : writeBatchRetry capacity answers.retry true (s.passed answers.first) with
      | error e s₂ =>
        exfalso
        change (writeBatchRetry capacity answers.retry true >>= _) (s.passed answers.first) = _ at h
        rw [bind_of_error hretry] at h
        cases h
      | ok b s₂ =>
        have hdo' : (s.passed answers.first).group.doBatchWrite = true := hdo
        obtain ⟨-, rfl, -, hnil⟩ := writeBatchRetry_ok hdo' hretry
        change (writeBatchRetry capacity answers.retry true >>= _) (s.passed answers.first) = _ at h
        rw [bind_of_ok hretry] at h
        cases h
        exact .inr ⟨hnil rfl, rfl⟩

theorem writeBatch_eq_first (hdo : s.group.doBatchWrite = true)
    (hwriter : s.HasWriter answers.first) (hcan : s.CanWrite capacity)
    (hnames : failedNames (s.submitted answers.first).1 = []) :
    writeBatch capacity answers s = .ok () (s.passed answers.first).cleared := by
  have hfirst : writeBatchRetry capacity answers.first false s = _ :=
    writeBatchRetry_eq hdo hwriter hcan
  rw [if_neg (by simp), decide_eq_false (not_not.mpr hnames)] at hfirst
  exact (bind_of_ok hfirst).trans rfl

theorem writeBatch_eq_retry (hdo : s.group.doBatchWrite = true)
    (hwriter : s.HasWriter answers.first) (hcan : s.CanWrite capacity)
    (hnames : failedNames (s.submitted answers.first).1 ≠ [])
    (hnames' : failedNames ((s.passed answers.first).submitted answers.retry).1 = []) :
    writeBatch capacity answers s =
      .ok () ((s.passed answers.first).passed answers.retry).cleared := by
  have hfirst : writeBatchRetry capacity answers.first false s = _ :=
    writeBatchRetry_eq hdo hwriter hcan
  rw [if_neg (by simp), decide_eq_true hnames] at hfirst
  have hdo' : (s.passed answers.first).group.doBatchWrite = true := hdo
  have hwriter' : (s.passed answers.first).HasWriter answers.retry := fun hnone => (nomatch hnone)
  have hretry : writeBatchRetry capacity answers.retry true (s.passed answers.first) = _ :=
    writeBatchRetry_eq hdo' hwriter' hcan.passed
  rw [if_neg fun h => h.1 hnames', hnames'] at hretry
  refine (bind_of_ok hfirst).trans ?_
  change (writeBatchRetry capacity answers.retry true >>= _) (s.passed answers.first) = _
  exact (bind_of_ok hretry).trans rfl

theorem SettledOn.writeBatch (h : s.SettledOn path text) (hdo : s.group.doBatchWrite = true)
    (hqueue : ∀ op ∈ s.writer.operations, op.nbytes ≤ ioBufferSize) (hwhole : answers.Whole)
    (hok : Sysfs.writeBatch capacity answers s = .ok () s') : (s'.files path).contents = text := by
  obtain ⟨hcan, ⟨hnames, rfl⟩ | ⟨hnames, rfl⟩⟩ := writeBatch_ok hdo hok
  · have hfirst := h.passed hwhole.1 hqueue hcan
    exact hfirst.held fun info hinfo _ => failedNames_eq_nil.mp hnames info hinfo
  · have hfirst := h.passed hwhole.1 hqueue hcan
    have hnone : ∀ op ∈ (s.passed answers.first).writer.operations, op.nbytes ≤ ioBufferSize :=
      fun op hop => absurd hop not_mem_nil
    have hretry := hfirst.passed hwhole.2 hnone hcan.passed
    exact hretry.held fun info hinfo _ => failedNames_eq_nil.mp hnames info hinfo

/-! #### Exactness -/

/-- The operations at some positions fail, the others are written. -/
def answersExcept (fails : ℕ → Bool) : PassAnswers where
  result k := if fails k then .failed 5 else .wrote ioBufferSize

theorem isFailed_answersExcept (fails : ℕ → Bool) (k : ℕ) :
    ((answersExcept fails).result k).isFailed = fails k := by
  unfold answersExcept
  dsimp only
  cases fails k <;> rfl

theorem whole_answersExcept (fails : ℕ → Bool) (k : ℕ) :
    ((answersExcept fails).result k).Whole := by
  intro bytes h
  unfold answersExcept at h
  dsimp only at h
  split_ifs at h
  exact (WriteResult.wrote.inj h).le

/-- A file that holds the text after every batch is settled on it. -/
theorem settledOn_of_batches (hdo : s.group.doBatchWrite = true)
    (hqueue : ∀ op ∈ s.writer.operations, op.nbytes ≤ ioBufferSize) (hcan : s.CanWrite capacity)
    (h : ∀ answers : BatchAnswers, answers.Whole → ∀ s',
      writeBatch capacity answers s = .ok () s' → (s'.files path).contents = text) :
    s.SettledOn path text := by
  -- what is written when all operations of the slots are
  have hfirst : ∀ fails : ℕ → Bool, (∀ k, s.writer.operations.length ≤ k → fails k = false) →
      ((s.passed (answersExcept fails)).files path).contents = text := by
    intro fails hfails
    change ((s.passed (answersExcept fails)).cleared.files path).contents = text
    refine h ⟨answersExcept fails, answersExcept fails⟩
      ⟨whole_answersExcept fails, whole_answersExcept fails⟩ _
      (writeBatch_eq_first hdo (fun _ => rfl) hcan (failedNames_eq_nil_iff.mpr ?_))
    intro i info _ _
    rw [resultAt, isFailed_answersExcept]
    exact hfails _ (Nat.le_add_right _ _)
  refine ⟨fun info hinfo hfd hpending => ?_, fun hidle => ?_, fun hidle op hop info hi hfd => ?_⟩
  · -- the operation of the slot fails at first, so that it is written last
    obtain ⟨j, hj⟩ := mem_iff_getElem?.mp hinfo
    obtain ⟨t, hgen, -⟩ := hcan.1 info hinfo hpending
    set own := s.writer.operations.length + rank s.group.pushedInfoControl j with hown
    set first := answersExcept fun k => decide (k = own) with hfirsteq
    have hresult : ∀ i info', s.group.pushedInfoControl[i]? = some info' →
        info'.isPending = true → ((s.resultAt first i).isFailed = true ↔ i = j) := by
      intro i info' hi hpending'
      rw [resultAt, hfirsteq, isFailed_answersExcept, decide_eq_true_eq, hown,
        Nat.add_left_cancel_iff]
      refine ⟨rank_injective hi hpending' hj hpending, fun hij => ?_⟩
      rw [hij]
    have hnames : failedNames (s.submitted first).1 ≠ [] := by
      intro hnil
      have hdone := failedNames_eq_nil_iff.mp hnil j info hj hpending
      rw [(hresult j info hj hpending).mpr rfl] at hdone
      cases hdone
    have hafter : (s.passed first).SettledOn path t := by
      refine ⟨fun info' hinfo' _ hpending' => ?_, fun hidle => ?_, fun _ op hop => ?_⟩
      · obtain ⟨i, info₀, hi, rfl⟩ := exists_of_mem_passed hinfo'
        obtain ⟨-, hgen', hvalue⟩ := @afterPass_same first s i info₀
        rw [isPending_afterPass hi, Bool.and_eq_true] at hpending'
        obtain rfl := (hresult i info₀ hi hpending'.1).mp hpending'.2
        obtain rfl : info₀ = info := Option.some.inj (hi.symm.trans hj)
        rw [hgen', hvalue, hgen]
      · have hslot : (s.passed first).group.pushedInfoControl[j]? =
            some (s.afterPass first j info) := by
          rw [passed_getElem?, hj, Option.map_some]
        have hdone := hidle _ (mem_of_getElem? hslot) (afterPass_same.1.trans hfd)
        rw [isPending_afterPass hj, hpending, (hresult j info hj hpending).mpr rfl] at hdone
        cases hdone
      · exact absurd hop not_mem_nil
    have hnames' : failedNames ((s.passed first).submitted (answersExcept fun _ => false)).1 = [] :=
      failedNames_eq_nil_iff.mpr fun _ _ _ _ => rfl
    have hretry := hafter.passed (whole_answersExcept fun _ => false)
      (fun op hop => absurd hop not_mem_nil) hcan.passed
    have hlast := hretry.held fun info hinfo _ => failedNames_eq_nil.mp hnames' info hinfo
    have hheld := h ⟨first, answersExcept fun _ => false⟩
      ⟨whole_answersExcept _, whole_answersExcept _⟩ _
      (writeBatch_eq_retry hdo (fun _ => rfl) hcan hnames hnames')
    rw [hgen, ← hheld]
    exact congrArg Except.ok hlast.symm
  · have hheld := hfirst (fun k => decide (k < s.writer.operations.length))
      fun k hk => decide_eq_false (Nat.not_lt.mpr hk)
    rw [contents_of_idle (whole_answersExcept _) hcan hidle] at hheld
    have hnone : lastOf (written (s.group.pushedInfoControl.map buffered)
        (answersExcept fun k => decide (k < s.writer.operations.length)).result path)
        s.writer.operations.zipIdx = none := by
      rw [lastOf_eq_none_iff]
      rintro ⟨op, k⟩ hx
      have hlt := (List.getElem?_eq_some_iff.mp (mem_zipIdx_iff_getElem?.mp hx)).1
      dsimp only at hlt
      simp [written, answersExcept, hlt]
    rwa [hnone] at hheld
  · -- of the operations in the queue only this one is written
    obtain ⟨r, hr⟩ := mem_iff_getElem?.mp hop
    have hheld := hfirst (fun k => decide (k < s.writer.operations.length ∧ k ≠ r))
      fun k hk => decide_eq_false fun hk' => Nat.not_lt.mpr hk hk'.1
    rw [contents_of_idle (whole_answersExcept _) hcan hidle] at hheld
    have hlast : lastOf (written (s.group.pushedInfoControl.map buffered)
        (answersExcept fun k => decide (k < s.writer.operations.length ∧ k ≠ r)).result path)
        s.writer.operations.zipIdx = some (firstBytes info.buf op.nbytes) := by
      have hat : s.writer.operations.zipIdx[r]? = some (op, r) := by
        rw [getElem?_zipIdx, hr, Option.map_some, Nat.zero_add]
      subst hfd
      refine lastOf_eq_some_of_getElem? hat (written_queued hi
        (hidle info (mem_of_getElem? hi) rfl) ?_ (hqueue op hop)) fun j x hj hx => ?_
      · simp [answersExcept]
      · rw [getElem?_zipIdx, Option.map_eq_some_iff] at hx
        obtain ⟨op', hop', rfl⟩ := hx
        have hlt := (List.getElem?_eq_some_iff.mp hop').1
        have hne : j ≠ r := by omega
        simp [written, answersExcept, hlt, hne]
    rwa [hlast] at hheld

end Batch

/-! ### Runs -/

/-- A call of a method, or a change of the files by others. -/
inductive Call where
  | pushControl (t : Request)
  | adjust (batchIdx : ℤ) (setting : Double)
  | writeBatch (answers : BatchAnswers)
  | writeControl (t : Request) (setting : Double) (r : WriteResult)
  | saveControl (savePath : Option String) (readError : Request → Option Exception)
      (openError : Option Exception) (derivative : Request → Double)
  | restoreControl (savePath : Option String) (result : ℕ → Request → WriteResult)
  | others (files : String → SysfsFile) (savedFiles : String → Option String)

section Runs

variable (d : SysfsDriver) (json11 : Json11) (capacity : ℕ → Option ℕ)

/-- The state after a call. -/
def next (s : Sysfs) : Call → Sysfs
  | .pushControl t => final (pushControl d t) s
  | .adjust batchIdx setting => final (adjust batchIdx setting) s
  | .writeBatch answers => final (writeBatch capacity answers) s
  | .writeControl t setting r => final (writeControl d t setting r) s
  | .saveControl savePath readError openError derivative =>
    final (saveControl d json11 savePath readError openError derivative) s
  | .restoreControl savePath result => final (restoreControl d json11 savePath result) s
  | .others files savedFiles => { s with files := files, savedFiles := savedFiles }

/-- The slot and the value of the last adjustment of a file since the last batch that succeeded. -/
def lastAdjust (path : String) (s : Sysfs) : Option (PushedInfo × Double) :=
  lastOf (fun e : ℕ × Double => s.group.pushedInfoControl[e.1]?.bind fun info =>
    if info.fd = path then some (info, e.2) else none) s.since

/-- The file of a slot is settled on the text of a setting. -/
def Settled (info : PushedInfo) (setting : Double) (s : Sysfs) : Prop :=
  ∃ text, info.gen setting = .ok text ∧ s.SettledOn info.fd text

/-- The slot has the file and the text that the driver gives to its request. -/
def HasControl (s : Sysfs) (info : PushedInfo) : Prop :=
  ∃ cname, canonicalName d info.name s = .ok cname ∧
    d.attributePath cname info.domainIdx = .ok info.fd ∧ info.gen = d.controlGen cname

/-- The invariant of the object. -/
structure Inv (s : Sysfs) : Prop where
  doBatchWrite : s.group.pushedInfoControl ≠ [] → s.group.doBatchWrite = true
  queue : ∀ op ∈ s.writer.operations, op.nbytes ≤ ioBufferSize
  controls : ∀ info ∈ s.group.pushedInfoControl, HasControl d s info

/-- What a batch depends on is as it was. -/
structure Frame (s s' : Sysfs) : Prop where
  signals : s'.group.signals = s.group.signals
  doBatchWrite : s'.group.doBatchWrite = s.group.doBatchWrite
  pushedInfoControl : s'.group.pushedInfoControl = s.group.pushedInfoControl
  batchWriter : s'.group.batchWriter = s.group.batchWriter

variable {d json11 capacity} {s s' s'' : Sysfs} {t : Request} {info : PushedInfo} {setting : Double}

theorem Frame.refl (s : Sysfs) : s.Frame s := ⟨rfl, rfl, rfl, rfl⟩

theorem Frame.trans (h : s.Frame s') (h' : s'.Frame s'') : s.Frame s'' :=
  ⟨h'.signals.trans h.signals, h'.doBatchWrite.trans h.doBatchWrite,
    h'.pushedInfoControl.trans h.pushedInfoControl, h'.batchWriter.trans h.batchWriter⟩

theorem Frame.inv (h : s.Frame s') (hinv : s.Inv d) : s'.Inv d := by
  have hwriter : s'.writer = s.writer := by
    unfold writer
    rw [h.batchWriter, h.pushedInfoControl]
  refine ⟨?_, ?_, fun info hinfo => ?_⟩
  · rw [h.pushedInfoControl, h.doBatchWrite]
    exact hinv.doBatchWrite
  · rw [hwriter]
    exact hinv.queue
  · obtain ⟨cname, hcname, hrest⟩ := hinv.controls info (h.pushedInfoControl ▸ hinfo)
    refine ⟨cname, ?_, hrest⟩
    unfold canonicalName at hcname ⊢
    rwa [h.signals]

theorem wp_writeControl (r : WriteResult) :
    wp (writeControl d t setting r) (fun _ s' => s.Frame s') (fun _ s' => s.Frame s') s := by
  unfold writeControl
  rw [wp_bind, wp_get, wp_bind]
  refine wp_ret_of (fun control _ => ?_) fun _ _ => .refl s
  rw [wp_bind]
  refine wp_ret_of (fun value _ => ?_) fun _ _ => .refl s
  rw [wp_bind, wp_set]
  cases r with
  | failed errno => exact ⟨rfl, rfl, rfl, rfl⟩
  | wrote bytes =>
    rw [wp_ite]
    exact ⟨fun _ => ⟨rfl, rfl, rfl, rfl⟩, fun _ => ⟨rfl, rfl, rfl, rfl⟩⟩

theorem wp_restoreSettings (result : Request → WriteResult) (xs : List (Setting × Bool)) :
    wp (restoreSettings d result xs) (fun _ s' => s.Frame s') (fun _ s' => s.Frame s') s := by
  induction xs generalizing s with
  | nil => exact .refl s
  | cons x xs ih =>
    rw [restoreSettings, wp_bind]
    have hx : wp (restoreSetting d result x) (fun _ s' => s.Frame s') (fun _ s' => s.Frame s')
        s := by
      unfold restoreSetting
      rw [wp_ite, wp_tryCatch, wp_bind]
      refine ⟨fun _ => .refl s, fun _ => ?_⟩
      exact wp_mono (wp_writeControl _) (fun _ _ h => h) fun _ _ h => h
    refine wp_mono_ok hx fun isRestored s₁ h₁ => ?_
    rw [wp_bind]
    exact wp_mono ih (fun _ _ h => h₁.trans h) fun _ _ h => h₁.trans h

theorem wp_restoreSaver (result : ℕ → Request → WriteResult) (saver : SaveControl) :
    wp (restoreSaver d result saver) (fun _ s' => s.Frame s') (fun _ s' => s.Frame s') s := by
  unfold restoreSaver
  rw [wp_bind]
  refine wp_mono_ok (wp_restoreSettings _ _) fun first s₁ h₁ => ?_
  rw [wp_bind]
  refine wp_mono (wp_restoreSettings _ _) (fun last s₂ h₂ => ?_) fun _ _ h => h₁.trans h
  split <;> exact h₁.trans h₂

theorem wp_restoreControl (savePath : Option String) (result : ℕ → Request → WriteResult) :
    wp (restoreControl d json11 savePath result) (fun _ s' => s.Frame s')
      (fun _ s' => s.Frame s') s := by
  have hrest : ∀ s₁, s.Frame s₁ → wp (restoreControl d json11 none result)
      (fun _ s' => s.Frame s') (fun _ s' => s.Frame s') s₁ := by
    intro s₁ h₁
    unfold restoreControl
    rw [wp_bind, wp_get, wp_bind, wp_get]
    cases s₁.group.controlSaver with
    | none => exact h₁
    | some saver =>
      exact wp_mono (wp_restoreSaver _ _) (fun _ _ h => h₁.trans h) fun _ _ h => h₁.trans h
  unfold restoreControl
  rw [wp_bind, wp_get]
  cases savePath with
  | none => exact hrest s (.refl s)
  | some path =>
    dsimp only
    split_ifs
    · cases s.savedFiles path with
      | none => exact .refl s
      | some text =>
        rw [wp_bind]
        refine wp_ret_of (fun saver _ => ?_) fun _ _ => .refl s
        rw [wp_bind, wp_modify]
        exact hrest (keepSaver d saver s) ⟨rfl, rfl, rfl, rfl⟩
    · exact hrest s (.refl s)

theorem wp_saveControl (savePath : Option String) (readError : Request → Option Exception)
    (openError : Option Exception) (derivative : Request → Double) :
    wp (saveControl d json11 savePath readError openError derivative) (fun _ s' => s.Frame s')
      (fun _ s' => s.Frame s') s := by
  unfold saveControl
  rw [wp_bind, wp_get, wp_ite]
  refine ⟨fun _ => ?_, fun _ => .refl s⟩
  rw [wp_bind]
  refine wp_ret_of (fun saver _ => ?_) fun _ _ => .refl s
  dsimp only
  split_ifs
  · rw [wp_bind, wp_modify]
    cases savePath <;> cases openError <;> exact ⟨rfl, rfl, rfl, rfl⟩
  · cases savePath <;> cases openError <;> exact ⟨rfl, rfl, rfl, rfl⟩

/-- What holds of the slots and does not depend on the buffers holds after the preparation. -/
theorem prepWrites_infos {P : PushedInfo → Prop} {capacity : Option ℕ} {i : ℕ}
    {infos : List PushedInfo} {ops : List WriteOp}
    (hbuf : ∀ (info : PushedInfo) buf, P info → P { info with buf := buf })
    (h : ∀ info ∈ infos, P info) : ∀ info ∈ (prepWrites capacity i infos ops).infos, P info := by
  induction infos generalizing i ops with
  | nil => exact h
  | cons info infos ih =>
    have hinfo := h info mem_cons_self
    have hrest := fun info' hinfo' => h info' (mem_cons_of_mem info hinfo')
    cases hpending : info.isPending with
    | false =>
      rw [prepWrites, if_neg (by simp [hpending])]
      exact forall_mem_cons.mpr ⟨hinfo, ih hrest⟩
    | true =>
      rw [prepWrites, if_pos hpending]
      cases hgen : info.gen info.value with
      | error e => exact h
      | ok text =>
        dsimp only
        split_ifs
        · exact h
        · exact forall_mem_cons.mpr ⟨hbuf info text hinfo, hrest⟩
        · exact forall_mem_cons.mpr ⟨hbuf info text hinfo, ih hrest⟩

theorem Inv.writeBatchRetry (h : s.Inv d) (answers : PassAnswers) (isRetry : Bool) :
    wp (writeBatchRetry capacity answers isRetry) (fun _ s' => s'.Inv d) (fun _ s' => s'.Inv d)
      s := by
  have hbuf : ∀ (info : PushedInfo) buf, HasControl d s info →
      HasControl d s { info with buf := buf } := fun _ _ h => h
  unfold Sysfs.writeBatchRetry
  rw [wp_bind, wp_modify, wp_bind, wp_get, wp_ite]
  refine ⟨fun _ => ⟨h.doBatchWrite, h.queue, h.controls⟩, fun hdo => ?_⟩
  rw [wp_bind]
  refine wp_ret_of (fun w hw => ?_) fun _ _ => ⟨h.doBatchWrite, h.queue, h.controls⟩
  obtain rfl : w = s.writer := (makeWriter_ok hw).1
  have hdo' : s.group.doBatchWrite = true := by simpa using hdo
  have hprepared : ∀ info ∈ (prepWrites (capacity s.writer.entries) 0 s.group.pushedInfoControl
      s.writer.operations).infos, HasControl d s info := prepWrites_infos hbuf h.controls
  rw [wp_bind, wp_set]
  dsimp only
  cases herror : (prepWrites (capacity s.writer.entries) 0 s.group.pushedInfoControl
      s.writer.operations).error with
  | some e =>
    refine ⟨fun _ => hdo', fun op hop => ?_, hprepared⟩
    rcases nbytes_le_of_prepWrites hop with hold | hle
    · exact h.queue op hold
    · exact hle
  | none =>
    have hsubmitted : ∀ info ∈ (submit answers.result (prepWrites (capacity s.writer.entries) 0
        s.group.pushedInfoControl s.writer.operations).operations (prepWrites
          (capacity s.writer.entries) 0 s.group.pushedInfoControl s.writer.operations).infos
            s.files).1.map PushedInfo.collected, HasControl d s info := by
      intro info hinfo
      obtain ⟨info', hinfo', rfl⟩ := mem_map.mp hinfo
      obtain ⟨i, hi⟩ := mem_iff_getElem?.mp hinfo'
      unfold submit at hi
      rw [foldl_perform_fst, Option.map_eq_some_iff] at hi
      obtain ⟨info₀, hi, rfl⟩ := hi
      have hcontrol := hprepared info₀ (mem_of_getElem? hi)
      unfold PushedInfo.collected
      split_ifs <;> exact hcontrol
    rw [wp_bind, wp_set, wp_ite]
    exact ⟨fun _ => ⟨fun _ => hdo', fun _ hop => absurd hop not_mem_nil, hsubmitted⟩,
      fun _ => ⟨fun _ => hdo', fun _ hop => absurd hop not_mem_nil, hsubmitted⟩⟩

theorem checkRequest_ok {methodName cname : String} {isSignal : Bool}
    (h : checkRequest d methodName isSignal t s = .ok cname) :
    canonicalName d t.name s = .ok cname := by
  unfold checkRequest at h
  cases hname : canonicalName d t.name s with
  | error e =>
    rw [hname] at h
    simp only [bind, Except.bind, throw, throwThe, MonadExceptOf.throw] at h
    split_ifs at h
  | ok cname' =>
    rw [hname] at h
    simp only [bind, Except.bind, pure, Except.pure, throw, throwThe, MonadExceptOf.throw] at h
    split_ifs at h <;> exact h

theorem openResourceAttribute_ok {path fd : String} {isAllowed : SysfsFile → Bool}
    (h : openResourceAttribute path isAllowed s = .ok fd) : fd = path := by
  unfold openResourceAttribute at h
  split_ifs at h
  exact (Except.ok.inj h).symm

theorem HasControl.adjusted (h : HasControl d s info) (setting : Double) :
    HasControl d s (info.adjusted setting) := by
  unfold PushedInfo.adjusted
  split_ifs <;> exact h

theorem Inv.next (h : s.Inv d) (c : Call) : (next d json11 capacity s c).Inv d := by
  have hframe : ∀ {α : Type} {m : EStateM Exception Sysfs α},
      wp m (fun _ s' => s.Frame s') (fun _ s' => s.Frame s') s → (final m s).Inv d := fun hm =>
    (wp_final.mp hm).inv h
  cases c with
  | pushControl t =>
    refine (wp_final (P := Inv d)).mp ?_
    unfold Sysfs.pushControl
    rw [wp_bind, wp_get]
    dsimp only
    split_ifs
    · exact h
    rw [wp_bind]
    refine wp_ret_of (fun cname hcname => ?_) fun _ _ => h
    cases hfind : findPushed t s.group.pushedInfoControl with
    | some controlIdx => exact ⟨fun _ => rfl, h.queue, h.controls⟩
    | none =>
      dsimp only
      rw [wp_bind]
      refine wp_ret_of (fun path hpath => ?_) fun _ _ => h
      rw [wp_bind]
      refine wp_ret_of (fun fd hfd => ?_) fun _ _ => h
      obtain rfl := openResourceAttribute_ok hfd
      refine ⟨fun _ => rfl, fun op hop => ?_, fun info hinfo => ?_⟩
      · refine h.queue op ?_
        unfold writer at hop ⊢
        cases hw : s.group.batchWriter with
        | none => simp [hw] at hop
        | some w => simpa [hw] using hop
      · rcases mem_append.mp hinfo with hold | hnew
        · exact h.controls info hold
        · rw [mem_singleton.mp hnew]
          exact ⟨cname, checkRequest_ok hcname, hpath, rfl⟩
  | adjust batchIdx setting =>
    refine (wp_final (P := Inv d)).mp ?_
    unfold Sysfs.adjust
    rw [wp_bind, wp_get]
    dsimp only
    split_ifs
    · exact h
    refine ⟨fun hne => h.doBatchWrite fun hnil => hne ?_, fun op hop => ?_, fun info hinfo => ?_⟩
    · change s.group.pushedInfoControl.modify _ _ = []
      rw [hnil, modify_nil]
    · refine h.queue op ?_
      unfold writer at hop ⊢
      cases hw : s.group.batchWriter with
      | none => simp [hw] at hop
      | some w => simpa [hw] using hop
    · obtain ⟨i, hi⟩ := mem_iff_getElem?.mp hinfo
      change (s.group.pushedInfoControl.modify _ _)[i]? = _ at hi
      rw [getElem?_modify, Option.map_eq_map, Option.map_eq_some_iff] at hi
      obtain ⟨info₀, hi, rfl⟩ := hi
      have hcontrol := h.controls info₀ (mem_of_getElem? hi)
      split_ifs
      · exact hcontrol.adjusted setting
      · exact hcontrol
  | writeBatch answers =>
    refine (wp_final (P := Inv d)).mp ?_
    unfold Sysfs.writeBatch
    rw [wp_bind]
    refine wp_mono_ok (h.writeBatchRetry answers.first false) fun b s₁ h₁ => ?_
    dsimp only
    split_ifs
    · rw [wp_bind]
      exact wp_mono_ok (h₁.writeBatchRetry answers.retry true)
        fun _ _ h₂ => ⟨h₂.doBatchWrite, h₂.queue, h₂.controls⟩
    · exact ⟨h₁.doBatchWrite, h₁.queue, h₁.controls⟩
  | writeControl t setting r => exact hframe (wp_writeControl r)
  | saveControl savePath readError openError derivative =>
    exact hframe (wp_saveControl savePath readError openError derivative)
  | restoreControl savePath result => exact hframe (wp_restoreControl savePath result)
  | others files savedFiles =>
    exact Frame.inv (s := s) ⟨rfl, rfl, rfl, rfl⟩ h

/-- A `write_control` that returns leaves the text of the setting in the file of a slot that has
been pushed for the same request. -/
theorem writeControl_holds (h : s.Inv d) (hinfo : info ∈ s.group.pushedInfoControl)
    {r : WriteResult}
    (hok : writeControl d ⟨info.name, info.domainType, info.domainIdx⟩ setting r s = .ok () s') :
    Holds info setting s'.files := by
  have hwp : wp (writeControl d ⟨info.name, info.domainType, info.domainIdx⟩ setting r)
      (fun _ s' => Holds info setting s'.files) (fun _ _ => True) s := by
    unfold writeControl
    rw [wp_bind, wp_get, wp_bind]
    refine wp_ret_of (fun control hcontrol => ?_) fun _ _ => trivial
    obtain ⟨cname, hcname, hpath, hgen⟩ := h.controls info hinfo
    have hopened : control = (cname, info.fd) := by
      unfold openControl at hcontrol
      cases hcheck : checkRequest d "write_control" false ⟨info.name, info.domainType,
          info.domainIdx⟩ s with
      | error e =>
        rw [hcheck] at hcontrol
        cases hcontrol
      | ok cname' =>
        obtain rfl : cname' = cname := Except.ok.inj ((checkRequest_ok hcheck).symm.trans hcname)
        rw [hcheck] at hcontrol
        change (d.attributePath cname' info.domainIdx >>= _) = _ at hcontrol
        rw [hpath] at hcontrol
        cases hopen : openResourceAttribute info.fd (·.isWritable) s with
        | error e =>
          change (openResourceAttribute info.fd (·.isWritable) s >>= _) = _ at hcontrol
          rw [hopen] at hcontrol
          cases hcontrol
        | ok fd =>
          change (openResourceAttribute info.fd (·.isWritable) s >>= _) = _ at hcontrol
          rw [hopen, openResourceAttribute_ok hopen] at hcontrol
          exact (Except.ok.inj hcontrol).symm
    subst hopened
    rw [wp_bind]
    refine wp_ret_of (fun value hvalue => ?_) fun _ _ => trivial
    rw [wp_bind, wp_set]
    cases r with
    | failed errno => trivial
    | wrote bytes =>
      rw [wp_ite]
      refine ⟨fun _ => trivial, fun hshort => ⟨value, hgen ▸ hvalue, ?_⟩⟩
      have hfirst : firstBytes value (min bytes (value.length + 1)) = value :=
        firstBytes_of_le (by omega)
      change (Function.update s.files info.fd _ info.fd).contents = value
      rw [Function.update_self, hfirst]
  unfold wp at hwp
  rwa [hok] at hwp

theorem inv_start (files : String → SysfsFile) : (d.start files).Inv d :=
  ⟨fun hne => absurd rfl hne, fun _ hop => absurd hop not_mem_nil,
    fun _ hinfo => absurd hinfo not_mem_nil⟩

/-- **The last adjustment wins**, in every run, exactly if its file is settled on it.  What a file
holds of an adjustment is what `write_control` leaves there. -/
theorem writeBatch_holds_iff {files : String → SysfsFile}
    (hs : (Lts.ofFun (next d json11 capacity)).Reachable (d.start files) s) {path : String}
    (hlast : s.lastAdjust path = some (info, setting)) :
    (∀ r s', writeControl d ⟨info.name, info.domainType, info.domainIdx⟩ setting r s = .ok () s' →
      Holds info setting s'.files) ∧
    ((∀ answers : BatchAnswers, answers.Whole → ∀ s',
        writeBatch capacity answers s = .ok () s' → Holds info setting s'.files) ↔
      (s.CanWrite capacity → s.Settled info setting)) := by
  have hinv : s.Inv d := hs.invariant (inv_start files) fun _ _ _ h _ heq => heq ▸ h.next _
  obtain ⟨_, ⟨i, _⟩, _, -, hslot, -⟩ := lastOf_eq_some_iff.mp hlast
  obtain ⟨info', hi, hsome⟩ := Option.bind_eq_some_iff.mp hslot
  obtain ⟨hfd, heq⟩ := Option.ite_none_right_eq_some.mp hsome
  obtain ⟨rfl, rfl⟩ := Prod.mk.inj (Option.some.inj heq)
  have hinfo := mem_of_getElem? hi
  have hdo := hinv.doBatchWrite (ne_nil_of_mem hinfo)
  refine ⟨fun r s' hok => writeControl_holds hinv hinfo hok, fun h hcan => ?_, fun h => ?_⟩
  · have hall := whole_answersExcept fun _ => false
    obtain ⟨text, hgen, -⟩ := h ⟨answersExcept fun _ => false, answersExcept fun _ => false⟩
      ⟨hall, hall⟩ _ (writeBatch_eq_first hdo (fun _ => rfl) hcan
        (failedNames_eq_nil_iff.mpr fun _ _ _ _ => rfl))
    refine ⟨text, hgen, settledOn_of_batches hdo hinv.queue hcan fun answers hwhole s' hok => ?_⟩
    obtain ⟨text', hgen', hheld⟩ := h answers hwhole s' hok
    exact hheld.trans (Except.ok.inj (hgen'.symm.trans hgen))
  · intro answers hwhole s' hok
    obtain ⟨text, hgen, hsettled⟩ := h (writeBatch_ok hdo hok).1
    exact ⟨text, hgen, hsettled.writeBatch hdo hinv.queue hwhole hok⟩

/-- A driver with one control, of one attribute with an alias. -/
def oneAttribute : SysfsDriver where
  driver := "CPUFREQ"
  properties := [⟨"CPUFREQ::SCALING_MAX_FREQ", true, "CPU_FREQUENCY_MAX_CONTROL"⟩]
  domainType _ := 0
  attributePath _ _ := .ok "scaling_max_freq"
  signalParse _ _ := .nan
  controlGen _ setting := .ok (if setting = .num 5 then "5" else "7")
  numDomain _ := 1
  domainTypeToName _ := "board"

/-- The run of some calls, with an empty file. -/
def afterCalls (calls : List Call) : Sysfs :=
  calls.foldl (next oneAttribute ⟨fun _ => "", fun _ => .ok .null⟩ fun _ => none)
    (oneAttribute.start fun _ => ⟨"", true, true⟩)

/-- The control is pushed by its name and by its alias, as the slots 0 and 1. -/
def pushBoth : List Call :=
  [.pushControl ⟨"CPUFREQ::SCALING_MAX_FREQ", 0, 0⟩,
    .pushControl ⟨"CPU_FREQUENCY_MAX_CONTROL", 0, 0⟩]

/-- A batch whose writes all succeed. -/
def allWritten : BatchAnswers := ⟨answersExcept fun _ => false, answersExcept fun _ => false⟩

/-- What is adjusted last, and what the file holds after a batch that succeeds. -/
def lastAndHeld (s : Sysfs) : Option Double × Option String :=
  ((s.lastAdjust "scaling_max_freq").map Prod.snd,
    if returns (writeBatch (fun _ => none) allWritten) s then
      some ((final (writeBatch (fun _ => none) allWritten) s).files "scaling_max_freq").contents
    else none)

/-- One of the slots is adjusted twice. -/
theorem writeBatch_holds_iff_oneSlot :
    let s := afterCalls (pushBoth ++ [.adjust 0 (.num 7), .adjust 0 (.num 5)])
    ∃ info, s.lastAdjust "scaling_max_freq" = some (info, .num 5) ∧
      ((∀ answers : BatchAnswers, answers.Whole → ∀ s',
        writeBatch (fun _ => none) answers s = .ok () s' → Holds info (.num 5) s'.files) ↔
      (s.CanWrite (fun _ => none) → s.Settled info (.num 5))) := by
  intro s
  have hlast : s.lastAdjust "scaling_max_freq" =
      some (⟨"scaling_max_freq", "CPUFREQ::SCALING_MAX_FREQ", 0, 0, .num 5, true, .wrote 0, "",
        oneAttribute.controlGen "CPUFREQ::SCALING_MAX_FREQ"⟩, .num 5) := by
    rfl
  exact ⟨_, hlast, (writeBatch_holds_iff (Lts.reachable_foldl _ _) hlast).2⟩

/-- A value that the slot has is not written again, though others have written the file, and of two
slots of a file the second one is written last. -/
theorem writeBatch_stale :
    lastAndHeld (afterCalls (pushBoth ++ [.adjust 0 (.num 5), .writeBatch allWritten,
        .writeControl ⟨"CPUFREQ::SCALING_MAX_FREQ", 0, 0⟩ (.num 7) (.wrote 128),
        .adjust 0 (.num 5)])) = (some (.num 5), some "7") ∧
      lastAndHeld (afterCalls (pushBoth ++ [.adjust 0 (.num 5), .writeBatch allWritten,
        .others (fun _ => ⟨"6", true, true⟩) fun _ => none, .adjust 0 (.num 5)])) =
          (some (.num 5), some "6") ∧
      lastAndHeld (afterCalls (pushBoth ++ [.adjust 1 (.num 5), .adjust 0 (.num 7)])) =
        (some (.num 7), some "5") := by
  refine ⟨by decide +kernel, by decide +kernel, by decide +kernel⟩

end Runs

end Sysfs

end Geopm.Pio
