import Geopm.App.LogSteps
import Geopm.Lib.Visits

/-!
# The record log conserves region visits

* `exitRecords`, `completions`, `exitCalls` : the visits to a region in the records, in the short
  regions and in the calls;
* `pairedTime`, `shortTime`, `timeIn` : the time spent in a region, according to each of them;
* `visits_conserved` : once the buffer has been dumped, the records and the short regions of all
  dumps account for every visit, and for all of the time, however the dumps fall.
-/

namespace Geopm

open RecordLog
open List

/-- The record is an entry into `h` or an exit from it. -/
def Record.mark (h : ℕ) (r : Record) : Option (Mark ℤ) :=
  match r.event with
  | .regionEntry => if r.signal = h then some (.enter r.time) else none
  | .regionExit => if r.signal = h then some (.exit r.time) else none
  | _ => none

/-- The call enters `h` or leaves it. -/
def LogCall.mark (h : ℕ) : LogCall → Option (Mark ℤ)
  | .enter hash t => if hash = h then some (.enter t) else none
  | .exit hash t => if hash = h then some (.exit t) else none
  | _ => none

/-- The number of exits from `h` among the records. -/
def exitRecords (h : ℕ) (rs : List Record) : ℕ :=
  rs.countP fun r => r.event == .regionExit && r.signal == h

/-- The number of visits to `h` that the short regions have counted. -/
def completions (h : ℕ) (regions : List ShortRegion) : ℕ :=
  ((regions.filter fun region => region.hash == h).map ShortRegion.numComplete).sum

/-- The number of calls that leave `h`. -/
def exitCalls (h : ℕ) (calls : List LogCall) : ℕ :=
  calls.countP fun
    | .exit hash _ => hash == h
    | _ => false

/-- The time between the entry records of `h` and the exit records that match them. -/
def pairedTime (h : ℕ) (rs : List Record) : ℤ := (Visits.of (rs.filterMap (Record.mark h))).time

/-- The time in `h` that the short regions have counted. -/
def shortTime (h : ℕ) (regions : List ShortRegion) : ℤ :=
  ((regions.filter fun region => region.hash == h).map ShortRegion.totalTime).sum

/-- The time between the calls that enter `h` and the calls that leave it. -/
def timeIn (h : ℕ) (calls : List LogCall) : ℤ :=
  (Visits.of (calls.filterMap (LogCall.mark h))).time

/-- The records and the short regions account for the visits to `h` of the calls. -/
structure Conserved (h : ℕ) (calls : List LogCall) (rs : List Record)
    (regions : List ShortRegion) : Prop where
  exits : exitRecords h rs + completions h regions = exitCalls h calls
  time : pairedTime h rs + shortTime h regions = timeIn h calls

variable {t t₀ p : ℤ} {regions : List ShortRegion} {calls : List LogCall}

section Accounts

variable {h k : ℕ} {rs pre : List Record}

theorem since_of_openOf (ho : openOf calls = some (h, t)) :
    (Visits.of (calls.filterMap (LogCall.mark h))).since = some t := by
  induction calls using List.reverseRecOn with
  | nil => cases ho
  | append_singleton calls c ih =>
    rw [LogSystem.openOf_concat] at ho
    rw [filterMap_append]
    cases c with
    | enter h' t' =>
      cases ho
      simp [LogCall.mark]
    | exit h' t' => cases ho
    | _ =>
      change (Visits.of (calls.filterMap (LogCall.mark h) ++ [])).since = some t
      rw [append_nil]
      exact ih ho

theorem mark_of_not_isBoundary {r : Record} (hr : r.isBoundary = false) : r.mark h = none := by
  unfold Record.isBoundary at hr
  unfold Record.mark
  split <;> simp_all

theorem filterMap_mark_of_not_isBoundary (hrs : ∀ r ∈ rs, r.isBoundary = false) :
    rs.filterMap (Record.mark h) = [] :=
  filterMap_eq_nil_iff.mpr fun r hr => mark_of_not_isBoundary (hrs r hr)

theorem toShort_isBoundary (g : ℕ) (r : Record) : (toShort g r).isBoundary = false := rfl

/-- The visits of a stream whose last entry or exit is the entry into `k`. -/
theorem LastEntry.visits (hl : LastEntry p k t rs pre) :
    Visits.of (rs.filterMap (Record.mark h)) =
      if k = h then (Visits.of (pre.filterMap (Record.mark h))).next (.enter t)
      else Visits.of (pre.filterMap (Record.mark h)) := by
  obtain ⟨post, rfl, hpost⟩ := hl
  rw [filterMap_append, filterMap_cons, filterMap_mark_of_not_isBoundary hpost]
  by_cases hk : k = h <;> simp [Record.mark, hk]

theorem pairedTime_exit (hl : LastEntry p k t₀ rs pre) :
    pairedTime h (rs ++ [⟨t, p, .regionExit, k⟩]) =
      pairedTime h rs + if k = h then t - t₀ else 0 := by
  unfold pairedTime
  rw [filterMap_append, filterMap_cons, filterMap_nil]
  by_cases hk : k = h
  · simp only [Record.mark, hk, if_true, Visits.of_concat]
    exact Visits.time_next_exit (by rw [hl.visits, if_pos hk]; rfl) t
  · simp [Record.mark, hk]

theorem pairedTime_enter : pairedTime h (rs ++ [⟨t, p, .regionEntry, k⟩]) = pairedTime h rs := by
  unfold pairedTime
  rw [filterMap_append, filterMap_cons, filterMap_nil]
  by_cases hk : k = h <;> simp [Record.mark, hk]

theorem pairedTime_note {r : Record} (hr : r.isBoundary = false) :
    pairedTime h (rs ++ [r]) = pairedTime h rs := by
  unfold pairedTime
  rw [filterMap_append, filterMap_cons, mark_of_not_isBoundary hr]
  simp

theorem pairedTime_toShort (hl : LastEntry p k t rs pre) (g : ℕ) :
    pairedTime h (rs.modify pre.length (toShort g)) = pairedTime h rs := by
  have hvisits := hl.visits (h := h)
  obtain ⟨post, rfl, hpost⟩ := hl
  unfold pairedTime
  rw [hvisits, modify_append_cons, filterMap_append, filterMap_cons,
    mark_of_not_isBoundary (toShort_isBoundary g _), filterMap_mark_of_not_isBoundary hpost,
    append_nil]
  split_ifs <;> rfl

theorem exitRecords_toShort (hl : LastEntry p k t rs pre) (g : ℕ) :
    exitRecords h (rs.modify pre.length (toShort g)) = exitRecords h rs := by
  obtain ⟨post, rfl, -⟩ := hl
  rw [modify_append_cons]
  simp [exitRecords, toShort]

theorem exitRecords_concat (r : Record) : exitRecords h (rs ++ [r]) =
    exitRecords h rs + if r.event = .regionExit ∧ r.signal = h then 1 else 0 := by
  unfold exitRecords
  rw [countP_append, countP_singleton]
  simp

theorem exitRecords_note {r : Record} (hr : r.isBoundary = false) :
    exitRecords h (rs ++ [r]) = exitRecords h rs := by
  rw [exitRecords_concat, if_neg, Nat.add_zero]
  rintro ⟨he, -⟩
  simp [Record.isBoundary, he] at hr

theorem counts_complete {g : ℕ} {region : ShortRegion} (hregion : regions[g]? = some region) :
    completions h (regions.modify g (complete t₀ t)) =
        completions h regions + (if region.hash = h then 1 else 0) ∧
      shortTime h (regions.modify g (complete t₀ t)) =
        shortTime h regions + if region.hash = h then t - t₀ else 0 := by
  obtain ⟨pre, post, rfl, rfl⟩ : ∃ pre post, regions = pre ++ region :: post ∧ pre.length = g := by
    obtain ⟨hlt, hget⟩ := List.getElem?_eq_some_iff.mp hregion
    refine ⟨regions.take g, regions.drop (g + 1), ?_, length_take_of_le (by omega)⟩
    rw [← hget, getElem_cons_drop, take_append_drop]
  rw [modify_append_cons]
  unfold completions shortTime
  by_cases hh : region.hash = h
  · simp [complete, hh]
    constructor <;> omega
  · simp [complete, hh]

theorem counts_concat (region : ShortRegion) :
    completions h (regions ++ [region]) =
        completions h regions + (if region.hash = h then region.numComplete else 0) ∧
      shortTime h (regions ++ [region]) =
        shortTime h regions + if region.hash = h then region.totalTime else 0 := by
  unfold completions shortTime
  by_cases hh : region.hash = h <;> simp [hh]

theorem exitCalls_exit : exitCalls h (calls ++ [.exit k t]) =
    exitCalls h calls + if k = h then 1 else 0 := by
  unfold exitCalls
  rw [countP_append, countP_singleton]
  simp

theorem exitCalls_of_ne_exit {c : LogCall} (hc : ∀ k t, c ≠ .exit k t) :
    exitCalls h (calls ++ [c]) = exitCalls h calls := by
  unfold exitCalls
  rw [countP_append, countP_singleton]
  cases c with
  | exit k t => exact absurd rfl (hc k t)
  | _ => rfl

theorem timeIn_exit (ho : openOf calls = some (k, t₀)) :
    timeIn h (calls ++ [.exit k t]) = timeIn h calls + if k = h then t - t₀ else 0 := by
  unfold timeIn
  rw [filterMap_append, filterMap_cons, filterMap_nil]
  by_cases hk : k = h
  · subst hk
    simp only [LogCall.mark, if_true, Visits.of_concat]
    exact Visits.time_next_exit (since_of_openOf ho) t
  · simp [LogCall.mark, hk]

theorem timeIn_enter : timeIn h (calls ++ [.enter k t]) = timeIn h calls := by
  unfold timeIn
  rw [filterMap_append, filterMap_cons, filterMap_nil]
  by_cases hk : k = h <;> simp [LogCall.mark, hk]

theorem timeIn_note {R : RecordLog} {c : LogCall} {x : Record × ℕ} (hc : R.noteOf c = some x) :
    timeIn h (calls ++ [c]) = timeIn h calls ∧ exitCalls h (calls ++ [c]) = exitCalls h calls := by
  have hmark : c.mark h = none := by cases c <;> first | rfl | cases hc
  refine ⟨?_, ?_⟩
  · unfold timeIn
    rw [filterMap_append, filterMap_cons, hmark, filterMap_nil, append_nil]
  · exact exitCalls_of_ne_exit fun k t h => by rw [h] at hc; cases hc

end Accounts

namespace Conserved

variable {h k g : ℕ} {rs rs' pre : List Record}

section

variable (hc : Conserved h calls rs regions)
include hc

theorem enter :
    Conserved h (calls ++ [.enter k t]) rs regions where
  exits := by rw [exitCalls_of_ne_exit fun _ _ h => by cases h]; exact hc.exits
  time := by rw [timeIn_enter]; exact hc.time

theorem enterRecord :
    Conserved h calls (rs ++ [⟨t, p, .regionEntry, k⟩]) regions where
  exits := by
    rw [exitRecords_concat, if_neg (by rintro ⟨⟨⟩, -⟩), Nat.add_zero]
    exact hc.exits
  time := by rw [pairedTime_enter]; exact hc.time

theorem exitRecord (ho : openOf calls = some (k, t₀))
    (hlast : LastEntry p k t₀ rs pre) :
    Conserved h (calls ++ [.exit k t]) (rs ++ [⟨t, p, .regionExit, k⟩]) regions where
  exits := by
    have hexits := hc.exits
    rw [exitRecords_concat, exitCalls_exit]
    simp only [true_and]
    omega
  time := by
    have htime := hc.time
    rw [pairedTime_exit hlast, timeIn_exit ho]
    omega

theorem exitFirst (ho : openOf calls = some (k, t₀)) :
    Conserved h (calls ++ [.exit k t]) rs (regions ++ [complete t₀ t ⟨k, 0, 0⟩]) where
  exits := by
    have hexits := hc.exits
    rw [(counts_concat _).1, exitCalls_exit]
    simp only [complete, Nat.zero_add]
    omega
  time := by
    have htime := hc.time
    rw [(counts_concat _).2, timeIn_exit ho]
    simp only [complete, zero_add]
    omega

theorem exitAgain {region : ShortRegion}
    (ho : openOf calls = some (region.hash, t₀)) (hregion : regions[g]? = some region) :
    Conserved h (calls ++ [.exit region.hash t]) rs (regions.modify g (complete t₀ t)) where
  exits := by
    have hexits := hc.exits
    rw [(counts_complete hregion).1, exitCalls_exit]
    omega
  time := by
    have htime := hc.time
    rw [(counts_complete hregion).2, timeIn_exit ho]
    omega

theorem noteRecord {r : Record} (hr : r.isBoundary = false) :
    Conserved h calls (rs ++ [r]) regions where
  exits := by rw [exitRecords_note hr]; exact hc.exits
  time := by rw [pairedTime_note hr]; exact hc.time

theorem toShort (hlast : LastEntry p k t rs pre) :
    Conserved h calls (rs.modify pre.length (RecordLog.toShort g)) regions where
  exits := by rw [exitRecords_toShort hlast]; exact hc.exits
  time := by rw [pairedTime_toShort hlast]; exact hc.time

theorem note {R : RecordLog} {c : LogCall} {x : Record × ℕ}
    (hnote : R.noteOf c = some x) : Conserved h (calls ++ [c]) rs regions where
  exits := by rw [(timeIn_note hnote).2]; exact hc.exits
  time := by rw [(timeIn_note hnote).1]; exact hc.time

end

end Conserved

section Step

variable {h : ℕ} {dumped : List Record} {dregions : List ShortRegion} {R R' : RecordLog}
  {c : LogCall}

theorem Conserved.logged_step (ht : Mapped (openOf calls) dumped R)
    (hc : Conserved h calls (dumped ++ R.records) (dregions ++ R.regions))
    (halt : Alternates (openOf calls) c) (hstep : Logged R c R') :
    Conserved h (calls ++ [c]) (dumped ++ R'.records) (dregions ++ R'.regions) := by
  cases hstep with
  | enterNew =>
    simp only [setEnter_regions, ← append_assoc]
    exact hc.enter.enterRecord
  | enterAgain => exact hc.enter
  | exitPlain hmap =>
    obtain ⟨t₀, ho⟩ := halt
    obtain ⟨pre, hlast⟩ := ht.logged ho hmap
    simp only [← append_assoc]
    exact hc.exitRecord ho hlast
  | exitPending hmap =>
    obtain ⟨t₀, ho⟩ := halt
    obtain ⟨-, -, pre, rfl, hlast⟩ := (ht.element hmap).pending _ rfl rfl
    obtain rfl := (ht.element hmap).since t₀ ho
    simp only [append_modify, ← append_assoc, ← length_append]
    exact (hc.exitFirst ho).toShort (hlast.prepend dumped)
  | exitKept hmap =>
    obtain ⟨t₀, ho⟩ := halt
    obtain rfl := (ht.element hmap).since t₀ ho
    simp only [← append_assoc]
    exact (hc.exitFirst ho).noteRecord rfl
  | exitShort hmap =>
    obtain ⟨t₀, ho⟩ := halt
    obtain rfl := (ht.element hmap).since t₀ ho
    obtain ⟨-, region, hregion, rfl⟩ := (ht.element hmap).short _ rfl
    simp only [setEnter_records, append_modify]
    refine hc.exitAgain ho ?_
    rw [getElem?_append_right (Nat.le_add_right _ _), Nat.add_sub_cancel_left, hregion]
  | note hnote =>
    simp only [← append_assoc]
    exact (hc.note hnote).noteRecord (noteOf_isBoundary hnote)

end Step

/-! ### Runs -/

namespace LogSystem

/-- What has been dumped and what is in the buffer account for the visits. -/
def VisitsConserved (h : ℕ) (s : LogSystem) : Prop :=
  Conserved h s.calls (s.dumpedRecords ++ s.log.records) (s.dumpedRegions ++ s.log.regions)

theorem visitsConserved_next {h : ℕ} {s : LogSystem} {a : LogAction} (hmap : s.MapTracked)
    (hs : s.VisitsConserved h) (hfits : s.Fits a) (hturn : s.InTurn a) :
    (s.next a).VisitsConserved h := by
  cases a with
  | call c =>
    obtain ⟨l', hlogged, hnext⟩ := afterCall_spec hmap.indexed hfits
    change (s.afterCall c).VisitsConserved h
    rw [hnext]
    rw [VisitsConserved, ← reset_records, ← reset_regions] at hs
    exact hs.logged_step hmap hturn hlogged
  | dump =>
    change Conserved h s.calls (s.afterDump.dumpedRecords ++ []) (s.afterDump.dumpedRegions ++ [])
    rw [dumpedRecords_afterDump, dumpedRegions_afterDump, append_nil, append_nil]
    exact hs

/-- In every run in which no call is refused and the regions are entered and left in turn: after a
dump, the exit records and the completions of the short regions are as many as the calls that left
the region, and the paired records and the short regions add up to the time between the calls. -/
theorem visits_conserved {p : ℤ} {s : LogSystem}
    (h : logSystem.ReachableIf (fun s a => s.Fits a ∧ s.InTurn a) (init p) s) (hash : ℕ) :
    exitRecords hash s.afterDump.dumpedRecords + completions hash s.afterDump.dumpedRegions =
        exitCalls hash s.afterDump.calls ∧
      pairedTime hash s.afterDump.dumpedRecords + shortTime hash s.afterDump.dumpedRegions =
        timeIn hash s.afterDump.calls := by
  have hs : s.VisitsConserved hash := by
    refine h.invariant_of (J := MapTracked) (fun _ => mapTracked_of_reachable) ⟨rfl, rfl⟩ ?_
    rintro s a _ hmap hs ⟨hfits, hturn⟩ rfl
    exact visitsConserved_next hmap hs hfits hturn
  rw [dumpedRecords_afterDump, dumpedRegions_afterDump]
  exact ⟨hs.exits, hs.time⟩

/-- Three visits to the region 5; the first and the last of them go on over a dump. -/
theorem visits_conserved_across_dump :
    let s := [.call (.enter 5 10), .dump, .call (.exit 5 13), .call (.enter 5 20),
      .call (.exit 5 21), .call (.enter 5 30), .dump, .call (.exit 5 32)].foldl next (init 1)
    exitRecords 5 s.afterDump.dumpedRecords + completions 5 s.afterDump.dumpedRegions = 3 ∧
      pairedTime 5 s.afterDump.dumpedRecords + shortTime 5 s.afterDump.dumpedRegions = 6 := by
  intro s
  have h : logSystem.ReachableIf (fun s a => s.Fits a ∧ s.InTurn a) (init 1) s :=
    Lts.reachableIf_of_along
      ⟨⟨trivial, rfl⟩, ⟨trivial, trivial⟩, ⟨trivial, _, rfl⟩, ⟨trivial, rfl⟩, ⟨trivial, _, rfl⟩,
        ⟨trivial, rfl⟩, ⟨trivial, trivial⟩, ⟨trivial, _, rfl⟩, trivial⟩
  exact visits_conserved h 5

end LogSystem

end Geopm
