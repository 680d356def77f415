import Geopm.App.LogSteps

/-!
# Dumped records are valid

* `recordedHash` : the region that the validator is in;
* `dumps_valid` : in every run the validator accepts the records of all dumps, and the short region
  records of every dump point at its short regions, one each.
-/

namespace Geopm

open RecordLog
open List

/-- The indices that the short region records point at. -/
def shortSignals (rs : List Record) : List ℕ :=
  rs.filterMap fun r => if r.event = .shortRegion then some r.signal else none

/-- The short region records point at the short regions, one each. -/
def PointsAt (rs : List Record) (regions : List ShortRegion) : Prop :=
  (∀ r ∈ rs, r.event = .shortRegion → r.signal < regions.length) ∧
    (shortSignals rs).Nodup ∧ (shortSignals rs).length = regions.length

variable {rs pre : List Record}

section Signals

variable {regions : List ShortRegion} {n : ℕ}

theorem pointsAt_of_perm (h : (shortSignals rs).Perm (List.range regions.length)) :
    PointsAt rs regions := by
  refine ⟨fun r hr hshort => ?_, h.nodup_iff.mpr nodup_range, ?_⟩
  · refine mem_range.mp (h.mem_iff.mp ?_)
    exact mem_filterMap.mpr ⟨r, hr, if_pos hshort⟩
  · rw [h.length_eq, length_range]

theorem shortSignals_concat {r : Record} (hr : r.event ≠ .shortRegion) :
    shortSignals (rs ++ [r]) = shortSignals rs := by
  rw [shortSignals, filterMap_append, filterMap_cons, if_neg hr, filterMap_nil,
    append_nil]
  rfl

theorem shortSignals_concat_short {r : Record} (hr : r.event = .shortRegion) :
    shortSignals (rs ++ [r]) = shortSignals rs ++ [r.signal] := by
  rw [shortSignals, filterMap_append, filterMap_cons, if_pos hr, filterMap_nil]
  rfl

theorem shortSignals_toShort {p t : ℤ} {h : ℕ} (hl : LastEntry p h t rs pre) :
    (shortSignals (rs.modify pre.length (toShort n))).Perm (shortSignals rs ++ [n]) := by
  obtain ⟨post, rfl, -⟩ := hl
  rw [modify_append_cons]
  simp only [shortSignals, filterMap_append, filterMap_cons, toShort, if_true,
    reduceCtorEq, if_false, append_assoc]
  exact List.Perm.append_left _ (perm_append_singleton _ _).symm

end Signals

variable {r : Record} {p t : ℤ} {h g : ℕ}

namespace ValidateRecord

variable {v v' : ValidateRecord}

theorem step_isEmpty (hstep : v.step r = some v') : v'.isEmpty = false := by
  obtain ⟨-, -, -, rfl⟩ := step_eq_some.mp hstep
  have hstart : (v.start r).isEmpty = false := by
    unfold start
    split_ifs with hv
    · rfl
    · exact Bool.not_eq_true _ ▸ hv
  unfold advance
  split <;> exact hstart

/-- The region that the validator is in matters only to entries and exits. -/
theorem step_setRegion (hr : r.isBoundary = false) (hv : v.isEmpty = false) (x : ℕ) :
    ({ v with regionHash := x } : ValidateRecord).step r =
      (v.step r).map fun v' => { v' with regionHash := x } := by
  unfold step
  rw [start_of_not_isEmpty hv, start_of_not_isEmpty (v := { v with regionHash := x }) hv]
  obtain ⟨t, p, e, n⟩ := r
  cases e with
  | regionEntry => cases hr
  | regionExit => cases hr
  | _ =>
    rw [apply_ite (Option.map _)]
    rfl

theorem run_setRegion (hrs : ∀ r ∈ rs, r.isBoundary = false) (hv : v.isEmpty = false) (x : ℕ) :
    ({ v with regionHash := x } : ValidateRecord).run rs =
      (v.run rs).map fun v' => { v' with regionHash := x } := by
  induction rs generalizing v with
  | nil => rfl
  | cons r rs ih =>
    rw [run, run, step_setRegion (hrs r mem_cons_self) hv]
    cases hstep : v.step r with
    | none => rfl
    | some w =>
      exact ih (fun r' hr' => hrs r' (mem_cons_of_mem _ hr')) (step_isEmpty hstep)

theorem run_toShort (hl : LastEntry p h t rs pre) (hrun : v.run rs = some v') :
    v.run (rs.modify pre.length (toShort g)) =
      some { v' with regionHash := regionHashInvalid } := by
  obtain ⟨post, rfl, hpost⟩ := hl
  obtain ⟨u, hpre, hrest⟩ := run_append_eq_some.mp hrun
  rw [run, Option.bind_eq_some_iff] at hrest
  obtain ⟨w, hstep, hrest⟩ := hrest
  obtain ⟨hprocess, htime, ⟨-, hregion⟩, hw⟩ := step_eq_some.mp hstep
  have hshort : u.step (toShort g ⟨t, p, .regionEntry, h⟩) =
      some { w with regionHash := regionHashInvalid } := by
    refine step_eq_some.mpr ⟨hprocess, htime, trivial, ?_⟩
    rw [hw]
    change _ = ({ u.start ⟨t, p, .shortRegion, g⟩ with time := t } : ValidateRecord)
    change _ = ({ u.start ⟨t, p, .regionEntry, h⟩ with time := t } : ValidateRecord)
    rw [← hregion]
    rfl
  rw [modify_append_cons, run_append_eq_some]
  refine ⟨u, hpre, ?_⟩
  rw [run, hshort, Option.bind_some, run_setRegion hpost (step_isEmpty hstep), hrest]
  rfl

end ValidateRecord

/-! ### The validator and the log -/

/-- The region whose entry has been recorded, when the application is in the region `o`. -/
def recordedHash (o : Option (ℕ × ℤ)) (R : RecordLog) : ℕ :=
  match o with
  | none => regionHashInvalid
  | some (h, _) =>
    match R.enterMap h with
    | none => h
    | some info => if info.isShort then regionHashInvalid else h

/-- The epoch and the region that the validator is in. -/
def expected (o : Option (ℕ × ℤ)) (R : RecordLog) : ValidateRecord :=
  { epochCount := R.epochCount, regionHash := recordedHash o R }

/-- The validator, after the records so far, stands where the log does. -/
structure Follows (v : ValidateRecord) (calls : List LogCall) (R : RecordLog) : Prop where
  epochs : v.epochCount = R.epochCount
  region : v.regionHash = recordedHash (openOf calls) R
  empty : v.isEmpty = true → R.epochCount = 0 ∧ recordedHash (openOf calls) R = regionHashInvalid
  process : v.isEmpty = false → v.process = R.process
  time : v.isEmpty = false → ∃ c ∈ calls, v.time ≤ c.time

/-- The records `rs` are valid, and the log may go on from there. -/
def ValidSoFar (calls : List LogCall) (rs : List Record) (R : RecordLog) : Prop :=
  ∃ v, ({} : ValidateRecord).run rs = some v ∧ Follows v calls R

variable {calls : List LogCall} {R R' : RecordLog} {c : LogCall}

namespace ValidSoFar

/-- One more record of the process, made by the call `c`. -/
theorem append (hs : ValidSoFar calls rs R) (htime : ∀ c' ∈ calls, c'.time ≤ c.time)
    (hr : r.process = R.process ∧ r.time = c.time)
    (hallowed : (expected (openOf calls) R).Allowed r) (hprocess : R'.process = R.process)
    (hepochs : ((expected (openOf calls) R).advance r).epochCount = R'.epochCount)
    (hregion : ((expected (openOf calls) R).advance r).regionHash =
      recordedHash (openOf (calls ++ [c])) R') :
    ValidSoFar (calls ++ [c]) (rs ++ [r]) R' := by
  obtain ⟨v, hrun, hf⟩ := hs
  obtain ⟨hp, htr⟩ := hr
  -- The first record finds the validator empty.
  have hstart : (v.start r).epochCount = R.epochCount ∧
      (v.start r).regionHash = recordedHash (openOf calls) R ∧
      r.process = (v.start r).process ∧ (v.start r).time ≤ r.time := by
    unfold ValidateRecord.start
    split_ifs with hv
    · obtain ⟨hepochs, hregion⟩ := hf.empty hv
      exact ⟨hepochs.symm, hregion.symm, rfl, Int.le_refl _⟩
    · have hv' : v.isEmpty = false := Bool.not_eq_true _ ▸ hv
      obtain ⟨c', hc', hle⟩ := hf.time hv'
      refine ⟨hf.epochs, hf.region, by rw [hp, hf.process hv'], ?_⟩
      rw [htr]
      exact Int.le_trans hle (htime c' hc')
  generalize hu : v.start r = u at hstart
  obtain ⟨huepochs, huregion, hprocess', htime'⟩ := hstart
  have hstep : v.step r = some (u.advance r) := by
    refine ValidateRecord.step_eq_some.mpr ?_
    rw [hu]
    refine ⟨hprocess', htime', ?_, rfl⟩
    unfold ValidateRecord.Allowed at hallowed ⊢
    rw [huepochs, huregion]
    exact hallowed
  refine ⟨_, ValidateRecord.run_concat_eq_some.mpr ⟨v, hrun, hstep⟩, ?_⟩
  have hempty := ValidateRecord.step_isEmpty hstep
  have hadvance : (u.advance r).process = u.process ∧ (u.advance r).time = r.time ∧
      (u.advance r).epochCount = ((expected (openOf calls) R).advance r).epochCount ∧
      (u.advance r).regionHash = ((expected (openOf calls) R).advance r).regionHash := by
    unfold ValidateRecord.advance
    split
    · exact ⟨rfl, rfl, huepochs, rfl⟩
    · exact ⟨rfl, rfl, huepochs, rfl⟩
    · exact ⟨rfl, rfl, rfl, huregion⟩
    · exact ⟨rfl, rfl, huepochs, huregion⟩
  obtain ⟨hap, hat, hae, har⟩ := hadvance
  refine ⟨hae.trans hepochs, har.trans hregion, fun h => ?_, fun _ => ?_, fun _ => ?_⟩
  · rw [hempty] at h
    cases h
  · rw [hap, ← hprocess', hp, hprocess]
  · refine ⟨c, mem_append_right _ mem_cons_self, ?_⟩
    exact Int.le_of_eq (by rw [hat, htr])

theorem mono {calls' : List LogCall} (hs : ValidSoFar calls rs R)
    (hcalls : ∀ c ∈ calls, c ∈ calls') (hprocess : R'.process = R.process)
    (hepochs : R'.epochCount = R.epochCount)
    (hregion : recordedHash (openOf calls') R' = recordedHash (openOf calls) R) :
    ValidSoFar calls' rs R' := by
  obtain ⟨v, hrun, hf⟩ := hs
  refine ⟨v, hrun, by rw [hepochs, hf.epochs], by rw [hregion, hf.region], fun hv => ?_,
    fun hv => by rw [hprocess, hf.process hv], fun hv => ?_⟩
  · rw [hepochs, hregion]
    exact hf.empty hv
  · obtain ⟨c', hc', hle⟩ := hf.time hv
    exact ⟨c', hcalls c' hc', hle⟩

theorem toShort (hs : ValidSoFar calls rs R) (hl : LastEntry p h t rs pre)
    (hprocess : R'.process = R.process) (hepochs : R'.epochCount = R.epochCount)
    (hregion : recordedHash (openOf (calls ++ [c])) R' = regionHashInvalid) :
    ValidSoFar (calls ++ [c]) (rs.modify pre.length (RecordLog.toShort g)) R' := by
  obtain ⟨v, hrun, hf⟩ := hs
  refine ⟨_, ValidateRecord.run_toShort hl hrun, hepochs ▸ hf.epochs, hregion.symm, fun hv => ?_,
    fun hv => by rw [hprocess]; exact hf.process hv, fun hv => ?_⟩
  · exact ⟨by rw [hepochs]; exact (hf.empty hv).1, hregion⟩
  · obtain ⟨c', hc', hle⟩ := hf.time hv
    exact ⟨c', mem_append_left _ hc', hle⟩

end ValidSoFar

/-- The hash of a call is that of a region. -/
def LogCall.ValidRegion : LogCall → Prop
  | .enter h _ | .exit h _ => ValidateRecord.ValidHash h
  | _ => True

instance (c : LogCall) : Decidable c.ValidRegion := by
  unfold LogCall.ValidRegion
  split <;> infer_instance

section Step

variable {dumped : List Record} {o : Option (ℕ × ℤ)}

/-- A region that the application is not in has left its entry record behind. -/
theorem Element.isShort {h : ℕ} {info : RegionEnter}
    (he : Element o R h info) (ho : ∀ t, o ≠ some (h, t)) : info.isShort = true := by
  cases hrec : info.recordIdx with
  | none => exact (he.kept hrec).2
  | some i =>
    cases hreg : info.regionIdx with
    | none => exact absurd (he.pending i hrec hreg).2.1 (ho _)
    | some g => exact (he.short g hreg).1

theorem recordedHash_exit {h : ℕ} {t : ℤ} :
    recordedHash (openOf (calls ++ [.exit h t])) R = regionHashInvalid := by
  rw [LogSystem.openOf_concat]
  rfl

theorem recordedHash_of_isShort {h : ℕ} {t : ℤ} {info : RegionEnter}
    (ho : openOf calls = some (h, t)) (hmap : R.enterMap h = some info)
    (hshort : info.isShort = true) : recordedHash (openOf calls) R = regionHashInvalid := by
  unfold recordedHash
  rw [ho]
  simp only [hmap, hshort, if_true]

/-- A call appends valid records. -/
theorem ValidSoFar.logged_step (ht : Mapped (openOf calls) dumped R)
    (hs : ValidSoFar calls (dumped ++ R.records) R) (halt : Alternates (openOf calls) c)
    (hvalid : c.ValidRegion) (htime : ∀ c' ∈ calls, c'.time ≤ c.time)
    (hstep : Logged R c R') : ValidSoFar (calls ++ [c]) (dumped ++ R'.records) R' := by
  cases hstep with
  | @enterNew h t hmap =>
    have ho : openOf calls = none := halt
    simp only [← append_assoc]
    refine hs.append htime ⟨rfl, rfl⟩ ⟨hvalid, ?_⟩ rfl rfl ?_
    · simp [expected, ho, recordedHash]
    · simp [LogSystem.openOf_concat, openNext, recordedHash, lookup_setEnter,
        ValidateRecord.advance]
  | @enterAgain h t info hmap =>
    have ho : openOf calls = none := halt
    have hshort := (ht.element hmap).isShort (by simp [ho])
    refine hs.mono (fun _ => mem_append_left _) rfl rfl ?_
    simp [LogSystem.openOf_concat, openNext, recordedHash, lookup_setEnter, ho, hshort]
  | @exitPlain h t hmap =>
    obtain ⟨t₀, ho⟩ := halt
    simp only [← append_assoc]
    refine hs.append htime ⟨rfl, rfl⟩ ⟨hvalid, ?_⟩ rfl rfl recordedHash_exit.symm
    simp [expected, ho, recordedHash, hmap]
  | @exitPending h i t t₁ b hmap =>
    obtain ⟨-, -, pre, rfl, hlast⟩ := (ht.element hmap).pending _ rfl rfl
    simp only [append_modify, ← length_append]
    exact hs.toShort (hlast.prepend dumped) rfl rfl recordedHash_exit
  | @exitKept h t t₁ b hmap =>
    obtain ⟨t₀, ho⟩ := halt
    simp only [← append_assoc]
    refine hs.append htime ⟨rfl, rfl⟩ trivial rfl rfl ?_
    rw [recordedHash_exit]
    exact recordedHash_of_isShort ho hmap ((ht.element hmap).kept rfl).2
  | @exitShort h i g t t₁ b hmap =>
    obtain ⟨t₀, ho⟩ := halt
    refine hs.mono (fun _ => mem_append_left _) rfl rfl ?_
    rw [recordedHash_exit, recordedHash_of_isShort ho hmap ((ht.element hmap).short g rfl).1]
  | @note _ record epochs hnote =>
    simp only [← append_assoc]
    have hregion : recordedHash (openOf (calls ++ [c])) R = recordedHash (openOf calls) R := by
      rw [LogSystem.openOf_concat, openNext_of_note hnote]
    cases c with
    | enter h t => cases hnote
    | exit h t => cases hnote
    | epoch t =>
      cases hnote
      have hallowed : R.epochCount + 1 = R.epochCount + 1 := rfl
      exact hs.append htime ⟨rfl, rfl⟩ hallowed rfl rfl hregion.symm
    | _ =>
      cases hnote
      exact hs.append htime ⟨rfl, rfl⟩ trivial rfl rfl hregion.symm

theorem signals_logged_step (ht : Mapped o dumped R)
    (hs : (shortSignals R.records).Perm (List.range R.regions.length)) (hstep : Logged R c R') :
    (shortSignals R'.records).Perm (List.range R'.regions.length) := by
  cases hstep with
  | enterNew hmap =>
    rw [shortSignals_concat fun h => by cases h]
    exact hs
  | enterAgain hmap => exact hs
  | exitPlain hmap =>
    rw [shortSignals_concat fun h => by cases h]
    exact hs
  | exitPending hmap =>
    obtain ⟨-, -, pre, rfl, hlast⟩ := (ht.element hmap).pending _ rfl rfl
    simp only [length_append, length_cons, length_nil, range_succ]
    exact (shortSignals_toShort hlast).trans (hs.append_right _)
  | exitKept hmap =>
    simp only [length_append, length_cons, length_nil, range_succ]
    rw [shortSignals_concat_short rfl]
    exact hs.append_right _
  | exitShort hmap =>
    rw [length_modify]
    exact hs
  | note hnote =>
    rw [shortSignals_concat (by cases c <;> cases hnote <;> nofun)]
    exact hs

theorem recordedHash_dump (ht : Mapped o dumped R) :
    recordedHash o R.emptied.reset = recordedHash o R := by
  rcases o with _ | ⟨h, t⟩
  · rfl
  · have hentered : h = R.emptied.enteredHash := ht.entered.symm
    have hmap := reset_enterMap (l := R.emptied) rfl h
    rw [if_pos hentered] at hmap
    change _ = (R.enterMap h).bind carried at hmap
    unfold recordedHash
    dsimp only
    rw [hmap]
    cases R.enterMap h with
    | none => rfl
    | some info => by_cases hs : info.isShort <;> simp [carried, hs]

end Step

/-! ### Runs -/

namespace LogSystem

/-- The records so far are valid, the short region records of the buffer point at its short
regions, and those of every dump point at the short regions of the dump. -/
structure Valid (s : LogSystem) : Prop where
  accepted : ValidSoFar s.calls (s.dumpedRecords ++ s.log.reset.records) s.log.reset
  signals : (shortSignals s.log.records).Perm (List.range s.log.regions.length)
  dumps : ∀ d ∈ s.dumps, PointsAt d.1 d.2

/-- The time of a call is not before that of an earlier one, and regions have valid hashes. -/
def InOrder (s : LogSystem) : LogAction → Prop
  | .call c => c.ValidRegion ∧ ∀ c' ∈ s.calls, c'.time ≤ c.time
  | .dump => True

theorem valid_init (p : ℤ) : (init p).Valid where
  accepted := ⟨{}, rfl, rfl, rfl, fun _ => ⟨rfl, rfl⟩, nofun, nofun⟩
  signals := List.Perm.refl _
  dumps := nofun

theorem valid_next {s : LogSystem} {a : LogAction} (hmap : s.MapTracked) (hs : s.Valid)
    (hfits : s.Fits a) (hturn : s.InTurn a) (horder : s.InOrder a) : (s.next a).Valid := by
  cases a with
  | call c =>
    obtain ⟨l', hlogged, hnext⟩ := afterCall_spec hmap.indexed hfits
    have hreset := (hmap.logged_step hturn hlogged).reset
    change (s.afterCall c).Valid
    rw [hnext]
    refine ⟨?_, ?_, hs.dumps⟩
    · change ValidSoFar _ (s.dumpedRecords ++ l'.reset.records) l'.reset
      rw [hreset]
      exact hs.accepted.logged_step hmap hturn horder.1 horder.2 hlogged
    · refine signals_logged_step hmap ?_ hlogged
      rw [reset_records, reset_regions]
      exact hs.signals
  | dump =>
    refine ⟨?_, List.Perm.refl _, ?_⟩
    · change ValidSoFar s.calls (s.afterDump.dumpedRecords ++ s.log.emptied.reset.records)
        s.log.emptied.reset
      rw [← reset_emptied_reset, dumpedRecords_afterDump, reset_records, emptied,
        append_nil, ← s.log.reset_records]
      exact hs.accepted.mono (fun _ h => h) (reset_process _) (reset_epochCount _)
        (recordedHash_dump hmap)
    · intro d hd
      rcases mem_append.mp hd with hd | hd
      · exact hs.dumps d hd
      · rw [mem_singleton.mp hd]
        exact pointsAt_of_perm hs.signals

/-- In every run of one process, whose calls are not refused, enter and leave regions with valid
hashes in turn, and are made in the order of their times: the validator accepts the records of all
dumps, and in every dump the short region records point at the short regions, one each. -/
theorem dumps_valid {p : ℤ} {s : LogSystem}
    (h : logSystem.ReachableIf (fun s a => s.Fits a ∧ s.InTurn a ∧ s.InOrder a) (init p) s) :
    ({} : ValidateRecord).Accepts s.dumpedRecords ∧ ∀ d ∈ s.dumps, PointsAt d.1 d.2 := by
  have hs : s.Valid := by
    refine h.invariant_of (J := MapTracked) (fun t ht => mapTracked_of_reachable
      (ht.mono fun _ _ hC => ⟨hC.1, hC.2.1⟩)) (valid_init p) ?_
    rintro s a _ hmap hs ⟨hfits, hturn, horder⟩ rfl
    exact valid_next hmap hs hfits hturn horder
  refine ⟨?_, hs.dumps⟩
  obtain ⟨v, hrun, -⟩ := hs.accepted
  obtain ⟨w, hw, -⟩ := ValidateRecord.run_append_eq_some.mp hrun
  exact ValidateRecord.accepts_iff.mpr ⟨w, hw⟩

/-- The region 5 is left once before the dump and once after it. -/
theorem dumps_valid_short_region :
    let s := [.call (.enter 5 10), .call (.epoch 11), .call (.exit 5 12), .call (.enter 5 13),
      .dump, .call (.exit 5 14), .dump].foldl next (init 1)
    ({} : ValidateRecord).Accepts s.dumpedRecords ∧ ∀ d ∈ s.dumps, PointsAt d.1 d.2 := by
  intro s
  have h : logSystem.ReachableIf (fun s a => s.Fits a ∧ s.InTurn a ∧ s.InOrder a) (init 1) s :=
    Lts.reachableIf_of_along
      ⟨⟨trivial, rfl, by decide, by decide⟩, ⟨trivial, trivial, trivial, by decide⟩,
        ⟨trivial, ⟨_, rfl⟩, by decide, by decide⟩, ⟨trivial, rfl, by decide, by decide⟩,
        ⟨trivial, trivial, trivial⟩, ⟨trivial, ⟨_, rfl⟩, by decide, by decide⟩,
        ⟨trivial, trivial, trivial⟩, trivial⟩
  exact dumps_valid h

end LogSystem

end Geopm
