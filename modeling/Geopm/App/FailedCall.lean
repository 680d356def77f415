import Geopm.App.FullBuffer
import Geopm.App.ValidDumps

/-!
# Calls that a full buffer refuses

* `HasNoEffect` : a call that raises an exception leaves the log as `check_reset` has left it;
* `ChangesFirst` : the calls that change the map or the epoch count before they append a record;
* `hasNoEffect_iff` : a call has an effect although it is refused exactly when it is one of these;
* `returned` : the calls of a run that return;
* `failsCleanly_iff` : no refused call has an effect, the refused calls do not matter to what is
  dumped, and the epochs are contiguous, exactly in the runs that never make such a call when the
  buffer is full.
-/

namespace Geopm

open Prog RecordLog
open List

namespace RecordLog

/-- The call changes the map or the epoch count before it appends a record. -/
def ChangesFirst (R : RecordLog) : LogCall → Prop
  | .enter h _ => R.enterMap h = none
  | .exit h _ => ∃ info, R.enterMap h = some info ∧ info.recordIdx = none
  | .epoch _ => True
  | _ => False

section Refused

variable {R R' : RecordLog} {c : LogCall} {h : ℕ}

/-- A refused call that appends its record first changes nothing. -/
theorem eq_of_refused (hstep : Refused R c R') (hfirst : ¬ R.ChangesFirst c) : R' = R := by
  cases hstep with
  | enter hmap => exact absurd hmap hfirst
  | exitPlain => rfl
  | exitKept hmap hi => exact absurd ⟨_, hmap, hi⟩ hfirst
  | note hnote =>
    cases c with
    | epoch => exact absurd trivial hfirst
    | _ => cases hnote <;> rfl

theorem ne_of_refused (hstep : Refused R c R') (hfirst : R.ChangesFirst c) : R' ≠ R := by
  intro heq
  cases hstep with
  | @enter h t hmap =>
    have hlookup := congrFun (congrArg RecordLog.enterMap heq) h
    rw [lookup_setEnter, if_pos rfl, hmap] at hlookup
    cases hlookup
  | exitPlain hmap =>
    obtain ⟨info, hmap', -⟩ := hfirst
    rw [hmap] at hmap'
    cases hmap'
  | @exitKept h t info hmap hi =>
    have hlookup := congrFun (congrArg RecordLog.enterMap heq) h
    rw [lookup_setEnter, if_pos rfl, hmap] at hlookup
    have hrecord := congrArg RegionEnter.recordIdx (Option.some.inj hlookup)
    rw [hi] at hrecord
    cases hrecord
  | note hnote =>
    cases c with
    | epoch t =>
      cases hnote
      exact Nat.succ_ne_self _ (congrArg RecordLog.epochCount heq)
    | affinity | startProfile | stopProfile | overhead => exact hfirst
    | _ => cases hnote

/-- A call that returns although the buffer is full changes nothing before it appends. -/
theorem not_changesFirst_of_logged (hstep : Logged R c R')
    (hfull : ¬ R.records.length < maxRecord) : ¬ R.ChangesFirst c := by
  intro hfirst
  cases hstep with
  | enterNew _ hroom => exact hfull hroom
  | enterAgain hmap =>
    rw [ChangesFirst, hmap] at hfirst
    cases hfirst
  | exitPlain _ hroom => exact hfull hroom
  | exitPending hmap =>
    obtain ⟨info, hmap', hi⟩ := hfirst
    rw [hmap] at hmap'
    cases hmap'
    cases hi
  | exitKept _ hroom => exact hfull hroom
  | exitShort hmap =>
    obtain ⟨info, hmap', hi⟩ := hfirst
    rw [hmap] at hmap'
    cases hmap'
    cases hi
  | note _ hroom => exact hfull hroom

theorem not_loses_of_clean (hclean : ¬ R.records.length < maxRecord → ¬ R.ChangesFirst c) :
    ¬ Loses R c h := by
  rintro ⟨hfull, hlost⟩
  cases c with
  | enter => exact hclean hfull hlost.2
  | exit => exact hclean hfull hlost.2
  | _ => exact hlost

end Refused

end RecordLog

namespace LogSystem

variable {p : ℤ} {s : LogSystem} {a : LogAction} {as : List LogAction}

/-- A call that raises an exception leaves the log as `check_reset` has left it. -/
def HasNoEffect (s : LogSystem) : LogAction → Prop
  | .call c => wp c.run (fun _ _ => True) (fun _ l' => l' = s.log.reset) s.log
  | .dump => True

/-- The call does not change the map or the epoch count before it finds the buffer full. -/
def CleanCall (s : LogSystem) : LogAction → Prop
  | .call c => ¬ s.log.records.length < maxRecord → ¬ s.log.reset.ChangesFirst c
  | .dump => True

/-- A refused call has no effect exactly when it has changed nothing before. -/
theorem hasNoEffect_iff (hs : s.log.reset.Indexed) : s.HasNoEffect a ↔ s.CleanCall a := by
  cases a with
  | dump => exact Iff.rfl
  | call c =>
    have hspec := run_spec s.log hs c
    constructor
    · intro hno hfull hfirst
      rw [← reset_records] at hfull
      refine wp_const.mp (wp_mono (wp_and hspec hno) ?_ ?_)
      · exact fun _ l' ⟨hlogged, _⟩ => not_changesFirst_of_logged hlogged hfull hfirst
      · exact fun _ l' ⟨⟨_, hrefused⟩, heq⟩ => ne_of_refused hrefused hfirst heq
    · intro hclean
      refine wp_mono hspec (fun _ _ _ => trivial) ?_
      rintro _ l' ⟨hfull, hrefused⟩
      rw [reset_records] at hfull
      exact eq_of_refused hrefused (hclean hfull)

/-! ### The calls that return -/

/-- The call returns. -/
def returns (s : LogSystem) : LogAction → Bool
  | .call c =>
    match c.run s.log with
    | .ok _ _ => true
    | .error _ _ => false
  | .dump => true

/-- The dumps and the calls that return. -/
def returned : LogSystem → List LogAction → List LogAction
  | _, [] => []
  | s, a :: as => if s.returns a then a :: returned (s.next a) as else returned (s.next a) as

/-- A refused call that has no effect leaves the system in the state it was in. -/
theorem next_of_refused (hs : s.log.reset.Indexed) (hno : s.HasNoEffect a)
    (href : s.returns a = false) : s.next a = s := by
  cases a with
  | dump => cases href
  | call c =>
    have hspec := wp_and (run_spec s.log hs c) hno
    unfold returns at href
    dsimp only at href
    change s.afterCall c = s
    unfold afterCall
    unfold wp at hspec
    split at hspec
    · next hrun =>
      rw [hrun] at href
      cases href
    · next e l' hrun =>
      obtain ⟨⟨hfull, -⟩, rfl⟩ := hspec
      have hne : s.log.records ≠ [] := by
        intro hnil
        rw [reset_records, hnil] at hfull
        exact hfull (by decide)
      rw [hrun, reset_of_ne_nil hne]

theorem foldl_returned (hs : s.log.reset.Indexed) (hrun : Lts.Along HasNoEffect next s as) :
    (returned s as).foldl next s = as.foldl next s := by
  induction as generalizing s with
  | nil => rfl
  | cons a as ih =>
    have hnext := ih (indexed_next hs a) hrun.2
    rw [returned]
    split_ifs with href
    · exact hnext
    · rw [Bool.not_eq_true] at href
      rw [foldl_cons, ← hnext, next_of_refused hs hrun.1 href]

/-! ### Epochs -/

/-- The epoch counts among the records. -/
def epochSignals (rs : List Record) : List ℕ :=
  rs.filterMap fun r => if r.event = .epochCount then some r.signal else none

/-- The records of all dumps, and those that have not been dumped. -/
def allRecords (s : LogSystem) : List Record := s.dumpedRecords ++ s.log.records

/-- The epochs are counted from one in all records. -/
def CountsEpochs (s : LogSystem) : Prop :=
  epochSignals s.allRecords = List.range' 1 s.log.epochCount

theorem epochSignals_append (rs ss : List Record) :
    epochSignals (rs ++ ss) = epochSignals rs ++ epochSignals ss := by
  rw [epochSignals, filterMap_append]
  rfl

variable {rs : List Record}

theorem epochSignals_concat {r : Record} (hr : r.event ≠ .epochCount) :
    epochSignals (rs ++ [r]) = epochSignals rs := by
  rw [epochSignals_append, epochSignals, epochSignals, filterMap_cons, if_neg hr,
    filterMap_nil, append_nil]

/-- An entry that becomes a short region is no epoch. -/
theorem epochSignals_toShort {i g : ℕ} {r : Record} (hr : rs[i]? = some r)
    (hentry : r.event = .regionEntry) :
    epochSignals (rs.modify i (toShort g)) = epochSignals rs := by
  induction rs generalizing i with
  | nil => cases hr
  | cons x xs ih =>
    cases i with
    | zero =>
      cases hr
      simp [epochSignals, hentry, toShort]
    | succ i =>
      rw [modify_succ_cons, ← singleton_append, epochSignals_append, ih hr,
        ← epochSignals_append, singleton_append]

theorem epochs_of_logged {R R' : RecordLog} {c : LogCall} (hs : R.Sound) (hstep : Logged R c R')
    (hkept : ∀ h t, c = .exit h t → R.HasRecord h) :
    (epochSignals R'.records = epochSignals R.records ∧ R'.epochCount = R.epochCount) ∨
      (epochSignals R'.records = epochSignals R.records ++ [R.epochCount + 1] ∧
        R'.epochCount = R.epochCount + 1) := by
  cases hstep with
  | enterNew => exact .inl ⟨epochSignals_concat (by exact nofun), rfl⟩
  | enterAgain => exact .inl ⟨rfl, rfl⟩
  | exitPlain => exact .inl ⟨epochSignals_concat (by exact nofun), rfl⟩
  | @exitPending h i t t₀ b hmap =>
    have hlt := hkept h t rfl _ i hmap rfl
    have hfew := hs.few
    rcases hs.pending h _ i hmap rfl rfl with ⟨rfl, -⟩ | ⟨r, hr, hentry, -⟩
    · omega
    · exact .inl ⟨epochSignals_toShort hr hentry, rfl⟩
  | exitKept => exact .inl ⟨epochSignals_concat (by exact nofun), rfl⟩
  | exitShort => exact .inl ⟨rfl, rfl⟩
  | @note c record epochs hnote =>
    cases c with
    | epoch t =>
      cases hnote
      exact .inr ⟨by rw [epochSignals_append]; rfl, rfl⟩
    | affinity | startProfile | stopProfile | overhead =>
      cases hnote
      exact .inl ⟨epochSignals_concat (by exact nofun), rfl⟩
    | _ => cases hnote

/-- No call has left an element without a record, and the epochs are counted. -/
structure Undamaged (s : LogSystem) : Prop where
  sound : s.log.reset.Sound
  written : ∀ h, ¬ s.log.reset.Unwritten h
  counts : s.CountsEpochs

theorem Undamaged.hasRecord (hs : s.Undamaged) (h : ℕ) : s.log.reset.HasRecord h :=
  not_not.mp fun hrec => hs.written h (hs.sound.unwritten_iff.mpr hrec)

theorem Undamaged.recordKept (hs : s.Undamaged) (a : LogAction) : s.RecordKept a := by
  rcases a with c | _
  · cases c with
    | exit h t => exact hs.hasRecord h
    | _ => exact trivial
  · exact trivial

theorem dumpedRecords_afterCall (s : LogSystem) (c : LogCall) :
    (s.afterCall c).dumpedRecords = s.dumpedRecords := by
  unfold afterCall
  split <;> rfl

theorem allRecords_afterDump (s : LogSystem) : s.afterDump.allRecords = s.allRecords := by
  rw [allRecords, dumpedRecords_afterDump, afterDump_eq, emptied, append_nil]
  rfl

/-- A clean call does not leave an element without a record. -/
theorem Undamaged.written_next (hs : s.Undamaged) (hclean : s.CleanCall a) (h : ℕ) :
    ¬ (s.next a).log.reset.Unwritten h := by
  cases a with
  | dump => exact not_unwritten_of_nil (by rfl)
  | call c =>
    have hloses : ¬ Loses s.log.reset c h := by
      refine not_loses_of_clean fun hfull => ?_
      rw [reset_records] at hfull
      exact hclean hfull
    change ¬ RecordLog.Unwritten (s.afterCall c).log.reset h
    rcases afterCall_cases hs.sound.indexed c with hlogged | ⟨hfull, hrefused⟩
    · have hl' := hs.sound.logged hlogged fun h _ _ => hs.hasRecord h
      rw [hl'.unwritten_reset, unwritten_of_logged hlogged]
      exact hs.written h
    · have hl' := hs.sound.refused hfull hrefused
      rw [hl'.unwritten_reset, hs.sound.unwritten_of_refused hfull hrefused, not_or]
      exact ⟨hs.written h, hloses⟩

theorem Undamaged.counts_next (hs : s.Undamaged) (hclean : s.CleanCall a) :
    (s.next a).CountsEpochs := by
  have hcounts := hs.counts
  cases a with
  | dump =>
    change epochSignals s.afterDump.allRecords = _
    rw [allRecords_afterDump]
    exact hcounts
  | call c =>
    change epochSignals (s.afterCall c).allRecords = List.range' 1 (s.afterCall c).log.epochCount
    rw [CountsEpochs, allRecords, epochSignals_append] at hcounts
    rw [allRecords, dumpedRecords_afterCall, epochSignals_append]
    rcases afterCall_cases hs.sound.indexed c with hlogged | ⟨hfull, hrefused⟩
    · have hepochs := epochs_of_logged hs.sound hlogged fun h _ _ => hs.hasRecord h
      rw [reset_records, reset_epochCount] at hepochs
      rcases hepochs with ⟨hsignals, hcount⟩ | ⟨hsignals, hcount⟩
      · rw [hsignals, hcount, hcounts]
      · rw [hsignals, hcount, ← append_assoc, hcounts, range'_concat, Nat.one_mul,
          Nat.add_comm 1]
    · rw [reset_records] at hfull
      rw [eq_of_refused hrefused (hclean hfull), reset_records, reset_epochCount, hcounts]

theorem undamaged_init (p : ℤ) : (init p).Undamaged where
  sound := sound_init p
  written _ := not_unwritten_of_nil (by rfl)
  counts := rfl

theorem undamaged_of_clean (hrun : Lts.Along CleanCall next (init p) as) :
    (runOf p as).Undamaged := by
  refine (Lts.reachableIf_of_along hrun).invariant (I := Undamaged) (undamaged_init p) ?_
  rintro s a _ hs hclean rfl
  exact ⟨sound_next hs.sound (hs.recordKept a), hs.written_next hclean, hs.counts_next hclean⟩

/-- The check of the epoch count does not reject any of the records. -/
def EpochsContiguous (rs : List Record) : Prop :=
  ∀ pre r post, rs = pre ++ r :: post → r.event = .epochCount →
    ∀ v, ({} : ValidateRecord).run pre = some v → r.signal = (v.start r).epochCount + 1

theorem epochSignals_split {pre post : List Record} {r : Record} {n : ℕ}
    (hcounts : epochSignals (pre ++ r :: post) = List.range' 1 n) (hr : r.event = .epochCount) :
    ∃ m, epochSignals pre = List.range' 1 m ∧ r.signal = m + 1 := by
  have hcons : epochSignals (r :: post) = r.signal :: epochSignals post := by
    rw [epochSignals, filterMap_cons, if_pos hr]
    rfl
  rw [epochSignals_append, hcons, eq_comm, range'_eq_append_iff] at hcounts
  obtain ⟨m, -, hpre, hpost⟩ := hcounts
  obtain ⟨hsignal, -⟩ := range'_eq_cons_iff.mp hpost.symm
  exact ⟨m, hpre, by omega⟩

theorem run_start {v : ValidateRecord}
    (hrun : ({} : ValidateRecord).run rs = some v) (r : Record) : (v.start r).epochCount = v.epochCount := by
  rcases rs.eq_nil_or_concat' with rfl | ⟨rs, x, rfl⟩
  · cases hrun
    rfl
  · obtain ⟨w, -, hstep⟩ := ValidateRecord.run_concat_eq_some.mp hrun
    rw [ValidateRecord.start_of_not_isEmpty (ValidateRecord.step_isEmpty hstep)]

/-- The validator has counted the epochs that it has seen. -/
theorem epochCount_of_run {n : ℕ} {v : ValidateRecord}
    (hcounts : epochSignals rs = List.range' 1 n) (hrun : ({} : ValidateRecord).run rs = some v) :
    v.epochCount = n := by
  induction rs using List.reverseRecOn generalizing n v with
  | nil =>
    cases hrun
    exact (range'_eq_nil_iff.mp hcounts.symm).symm
  | append_singleton rs r ih =>
    obtain ⟨w, hw, hstep⟩ := ValidateRecord.run_concat_eq_some.mp hrun
    obtain ⟨-, -, hallowed, rfl⟩ := ValidateRecord.step_eq_some.mp hstep
    have hstart := run_start hw r
    by_cases hr : r.event = .epochCount
    · obtain ⟨m, hpre, hsignal⟩ := epochSignals_split hcounts hr
      have hlength := congrArg List.length hcounts
      have hadvance : ((w.start r).advance r).epochCount = r.signal := by
        unfold ValidateRecord.advance
        rw [hr]
      have hlast : (epochSignals [r]).length = 1 := by
        rw [epochSignals, filterMap_cons, if_pos hr]
        rfl
      rw [epochSignals_append, hpre, length_append, length_range', length_range',
        hlast] at hlength
      rw [hadvance, hsignal, hlength]
    · rw [epochSignals_concat hr] at hcounts
      have hadvance : ((w.start r).advance r).epochCount = (w.start r).epochCount := by
        unfold ValidateRecord.advance
        cases hevent : r.event <;> first | rfl | exact absurd hevent hr
      rw [hadvance, hstart]
      exact ih hcounts hw

theorem epochsContiguous_of_counts {n : ℕ}
    (hcounts : epochSignals rs = List.range' 1 n) : EpochsContiguous rs := by
  rintro pre r post rfl hr v hrun
  obtain ⟨m, hpre, hsignal⟩ := epochSignals_split hcounts hr
  rw [run_start hrun, epochCount_of_run hpre hrun, hsignal]

/-- In a run the refused calls have no effect; without them the same is dumped; and the epochs are
contiguous, also once what is in the buffer has been dumped. -/
structure FailsCleanly (p : ℤ) (as : List LogAction) : Prop where
  noEffect : Lts.Along HasNoEffect next (init p) as
  dumps : (runOf p (returned (init p) as)).dumps = (runOf p as).dumps
  epochs : EpochsContiguous (runOf p as).allRecords

/-- The refused calls do not matter exactly in the runs that do not call `epoch`, enter a region
without an element or leave one whose entry has to be written, when the buffer is full. -/
theorem failsCleanly_iff (p : ℤ) (as : List LogAction) :
    FailsCleanly p as ↔ Lts.Along CleanCall next (init p) as := by
  have hiff : Lts.Along HasNoEffect next (init p) as ↔ Lts.Along CleanCall next (init p) as :=
    Lts.along_congr (I := fun s => s.log.reset.Indexed) (fun s a hs => indexed_next hs a)
      (fun s a hs => hasNoEffect_iff hs) (sound_init p).indexed
  refine ⟨fun h => hiff.mp h.noEffect, fun hclean => ⟨hiff.mpr hclean, ?_, ?_⟩⟩
  · rw [runOf, foldl_returned (sound_init p).indexed (hiff.mpr hclean)]
  · exact epochsContiguous_of_counts (undamaged_of_clean hclean).counts

/-- The epoch is counted although the buffer is full. -/
theorem not_failsCleanly_filled (p : ℤ) {n : ℕ} (hn : n = maxRecord) :
    ¬ FailsCleanly p (fill n ++ [.call (.epoch 0)]) := by
  intro hclean
  obtain ⟨-, hno⟩ := Lts.along_concat.mp hclean.noEffect
  have hlog := fill_eq p (Nat.le_of_eq hn)
  have hindexed : (runOf p (fill n)).log.reset.Indexed := by
    rw [hlog, reset_filled]
    intro h info hmap
    cases hmap
  refine (hasNoEffect_iff hindexed).mp hno ?_ trivial
  rw [hlog, filled, length_replicate]
  exact Nat.not_lt.mpr (Nat.le_of_eq hn.symm)

/-- The call of `epoch` when the buffer is full. -/
theorem not_failsCleanly_full_buffer : ¬ ∀ p as, FailsCleanly p as := fun hall =>
  not_failsCleanly_filled 7 rfl (hall 7 _)

end LogSystem

end Geopm
