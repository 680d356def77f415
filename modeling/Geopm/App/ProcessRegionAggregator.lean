import Geopm.App.RegionVisits
import Geopm.App.ShortRegionOwner

/-!
# The averages of the regions over the processes

The reporter adds up the time that each process has spent in each region, and how often it has been
there.

* `ProcessRegionAggregator` : the members of `ProcessRegionAggregatorImp`;
* `ProcessRegionAggregator.update` : the records of the last update of the sampler are added up;
* `ProcessRegionAggregator.getRuntimeAverage`, `getCountAverage` : the averages;
* `update_tracks` : after an update each total is the time spent in the region, less what the time
  zero has moved between the entries and the exits.

The times are exact.  A count is an `int`; one that does not fit has undefined behaviour, and wraps
around on the processors.
-/

namespace Geopm

open Prog
open List hiding get modify set
open AList
open Record

/-- A number stored in an `int`. -/
def wrapInt (n : ℤ) : ℤ := n.bmod (2 ^ 32)

/-- `region_info_s`. -/
structure RegionInfo where
  totalRuntime : ℤ := 0
  totalCount : ℤ := 0
  lastEntryTime : ℤ := 0
deriving DecidableEq, Repr

/-- A visit that ends at `exitTime`. -/
def RegionInfo.leave (exitTime : ℤ) (info : RegionInfo) : RegionInfo :=
  { info with
    totalRuntime := info.totalRuntime + (exitTime - info.lastEntryTime)
    totalCount := wrapInt (info.totalCount + 1) }

/-- The visits to a short region. -/
def RegionInfo.addShort (region : ShortRegion) (info : RegionInfo) : RegionInfo :=
  { info with
    totalRuntime := info.totalRuntime + region.totalTime
    totalCount := wrapInt (info.totalCount + region.numComplete) }

/-- The members of `ProcessRegionAggregatorImp`. -/
structure ProcessRegionAggregator where
  numProcess : ℕ
  regionInfo : AList (fun _ : ℤ => AList fun _ : ℕ => RegionInfo) := ∅

namespace ProcessRegionAggregator

/-- A method of the aggregator. -/
abbrev Method := EStateM Exception ProcessRegionAggregator

/-- The constructor. -/
def make (sampler : ApplicationSampler) : ProcessRegionAggregator where
  numProcess := sampler.clientPids.length

/-- The regions of a process; none when the process is not in the map. -/
def regionsOf (a : ProcessRegionAggregator) (process : ℤ) : AList fun _ : ℕ => RegionInfo :=
  (a.regionInfo.lookup process).getD ∅

/-- What is known of a process and a region. -/
def info (a : ProcessRegionAggregator) (process : ℤ) (hash : ℕ) : Option RegionInfo :=
  (a.regionsOf process).lookup hash

/-- The element of a region, put there when there is none, is changed. -/
def emplace (process : ℤ) (hash : ℕ) (change : RegionInfo → RegionInfo)
    (a : ProcessRegionAggregator) : ProcessRegionAggregator :=
  let regions := a.regionsOf process
  let info := (regions.lookup hash).getD {}
  { a with regionInfo := a.regionInfo.insert process (regions.insert hash (change info)) }

/-- The handle of a short region, which has been an `int` on its way. -/
def shortHandle (signal : ℕ) : ℕ := (wrapInt signal % 2 ^ 64).toNat

/-- The exception of an exit whose process or region is not in the map. -/
def exitWithoutEntry : Exception :=
  ⟨"ProcessRegionAggregator: region exit without entry", [], .invalid⟩

/-- The body of the loop of `update`. -/
def updateRecord (sampler : ApplicationSampler) (timeZero : ℤ) (rec : Record) : Method Unit := do
  match rec.event with
  | .regionEntry =>
    let entryTime := rec.time - timeZero
    modify (emplace rec.process rec.signal fun info => { info with lastEntryTime := entryTime })
  | .regionExit =>
    let exitTime := rec.time - timeZero
    if rec.process ∉ (← get).regionInfo then throw exitWithoutEntry
    if rec.signal ∉ (← get).regionsOf rec.process then throw exitWithoutEntry
    modify (emplace rec.process rec.signal (RegionInfo.leave exitTime))
  | .shortRegion =>
    let shortRegion ← ret (sampler.getShortRegion (shortHandle rec.signal))
    modify (emplace rec.process shortRegion.hash (RegionInfo.addShort shortRegion))
  | _ => pure ()

/-- `update`. -/
def update (sampler : ApplicationSampler) : Method Unit :=
  sampler.getRecords.forM (updateRecord sampler sampler.timeZero)

/-- The sum of the totals of all processes, over the number of processes. -/
def average (a : ProcessRegionAggregator) (total : RegionInfo → ℤ) (regionHash : ℕ) : ℚ :=
  let sum : ℚ := ((a.regionInfo.keys.map fun process =>
    (a.info process regionHash).elim 0 total).sum : ℤ)
  if a.numProcess ≠ 0 then sum / a.numProcess else sum

def getRuntimeAverage (a : ProcessRegionAggregator) (regionHash : ℕ) : ℚ :=
  a.average RegionInfo.totalRuntime regionHash

def getCountAverage (a : ProcessRegionAggregator) (regionHash : ℕ) : ℚ :=
  a.average RegionInfo.totalCount regionHash

section Emplace

variable {a : ProcessRegionAggregator} {process p : ℤ} {hash h : ℕ}
  {change : RegionInfo → RegionInfo}

@[simp] theorem mem_emplace :
    p ∈ (a.emplace process hash change).regionInfo ↔ p = process ∨ p ∈ a.regionInfo :=
  mem_insert _

theorem info_emplace : (a.emplace process hash change).info p h =
    if p = process ∧ h = hash then some (change ((a.info process hash).getD {}))
    else a.info p h := by
  unfold info emplace regionsOf
  by_cases hp : p = process
  · subst hp
    rw [lookup_insert, Option.getD_some]
    by_cases hh : h = hash
    · subst hh
      rw [lookup_insert, if_pos ⟨rfl, rfl⟩]
    · rw [lookup_insert_ne hh, if_neg fun h => hh h.2]
  · rw [lookup_insert_ne hp, if_neg fun h => hp h.1]

/-- A region that is known is in the map, and so is its process. -/
theorem mem_of_info {info : RegionInfo} (h : a.info process hash = some info) :
    process ∈ a.regionInfo ∧ hash ∈ a.regionsOf process := by
  have hmem : hash ∈ a.regionsOf process := by
    rw [← lookup_isSome]
    exact Option.isSome_of_eq_some h
  refine ⟨?_, hmem⟩
  by_contra hnot
  rw [regionsOf, lookup_eq_none.mpr hnot] at hmem
  exact notMem_empty _ hmem

end Emplace

/-! ### What the aggregator has read -/

/-- A record that the aggregator has read, the time zero it has read it under, and the short region
that the record points at. -/
structure Reading where
  record : Record
  zero : ℤ
  region : Option ShortRegion
deriving DecidableEq, Repr

/-- The aggregator reads the record. -/
def isRead (r : Record) : Bool := r.isBoundary || r.event == .shortRegion

/-- The records that are read under the time zero `zero`, when these are the short regions that
they point at. -/
def readings (zero : ℤ) (shortRegions : List ShortRegion) (rs : List Record) : List Reading :=
  (rs.filter isRead).map fun r => ⟨r, zero, shortRegions[r.signal]?⟩

/-- An entry into `h`, or an exit from it, and the time zero. -/
def Reading.mark (h : ℕ) (x : Reading) : Option (Mark (ℤ × ℤ)) :=
  (x.record.mark h).map (Mark.map fun t => (t, x.zero))

/-- The short region of a record that points at one. -/
def Reading.short (x : Reading) : Option ShortRegion :=
  if x.record.event = .shortRegion then x.region else none

/-- The visits to `h`, with the time zeros of their ends. -/
def visitsTo (h : ℕ) (xs : List Reading) : Visits (ℤ × ℤ) := .of (xs.filterMap (Reading.mark h))

/-- **The time spent in `h`**: that of the closed visits, and that of the short regions. -/
def exactTime (h : ℕ) (xs : List Reading) : ℤ :=
  pairedTime h (xs.map Reading.record) + shortTime h (xs.filterMap Reading.short)

/-- **The visits to `h`**: the exits, and the visits that the short regions have counted. -/
def exactCount (h : ℕ) (xs : List Reading) : ℕ :=
  exitRecords h (xs.map Reading.record) + completions h (xs.filterMap Reading.short)

/-- What the time zero has moved between the entries and the exits of the closed visits to `h`. -/
def moved (h : ℕ) (xs : List Reading) : ℤ := (visitsTo h xs).time.2

/-- What is known of a region is what has been read of it. -/
structure Knows (i : Option RegionInfo) (h : ℕ) (xs : List Reading) : Prop where
  runtime : (i.getD {}).totalRuntime = exactTime h xs - moved h xs
  count : (i.getD {}).totalCount = wrapInt (exactCount h xs)
  entry : ∀ t, (visitsTo h xs).since = some t →
    ∃ info, i = some info ∧ info.lastEntryTime = t.1 - t.2

/-- What is known of every process and region is what has been read of them. -/
structure Tracks (a : ProcessRegionAggregator) (xs : ℤ → List Reading) : Prop where
  knows : ∀ p h, Knows (a.info p h) h (xs p)
  processes : ∀ p ∈ a.regionInfo, xs p ≠ []

/-- The readings of a process. -/
def ofProcess (p : ℤ) (xs : List Reading) : List Reading :=
  xs.filter fun x => x.record.process = p

section Concat

variable {h k : ℕ} {xs : List Reading} {x : Reading} {region : ShortRegion}

theorem visitsTo_concat_of_none (hx : x.mark h = none) :
    visitsTo h (xs ++ [x]) = visitsTo h xs := by
  simp [visitsTo, hx]

theorem visitsTo_concat_of_some {m : Mark (ℤ × ℤ)} (hx : x.mark h = some m) :
    visitsTo h (xs ++ [x]) = (visitsTo h xs).next m := by
  simp [visitsTo, hx]

/-- Without the time zeros the entries and exits are those of the records. -/
theorem map_fst_marks (h : ℕ) (xs : List Reading) :
    (xs.filterMap (Reading.mark h)).map (Mark.map (AddMonoidHom.fst ℤ ℤ)) =
      (xs.map Reading.record).filterMap (Record.mark h) := by
  rw [map_filterMap, filterMap_map]
  refine filterMap_congr fun x _ => ?_
  change ((x.record.mark h).map _).map _ = x.record.mark h
  rw [Option.map_map]
  refine (congrArg (Option.map · _) (funext fun m => ?_)).trans (congrFun Option.map_id _)
  cases m <;> rfl

theorem fst_time_visitsTo (h : ℕ) (xs : List Reading) :
    (visitsTo h xs).time.1 = pairedTime h (xs.map Reading.record) := by
  rw [pairedTime, ← map_fst_marks, Visits.time_of_map]
  rfl

theorem fst_since_visitsTo (h : ℕ) (xs : List Reading) :
    (Visits.of ((xs.map Reading.record).filterMap (Record.mark h))).since =
      (visitsTo h xs).since.map Prod.fst := by
  rw [← map_fst_marks, Visits.since_of_map]
  rfl

theorem exactTime_sub_moved (h : ℕ) (xs : List Reading) :
    exactTime h xs - moved h xs = ((visitsTo h xs).time.1 - (visitsTo h xs).time.2) +
      shortTime h (xs.filterMap Reading.short) := by
  rw [exactTime, moved, fst_time_visitsTo]
  omega

theorem shortTime_concat (region : ShortRegion) (regions : List ShortRegion) :
    shortTime h (regions ++ [region]) =
      shortTime h regions + if region.hash = h then region.totalTime else 0 := by
  by_cases hh : region.hash = h <;> simp [shortTime, filter_append, hh]

theorem completions_concat (region : ShortRegion) (regions : List ShortRegion) :
    completions h (regions ++ [region]) =
      completions h regions + if region.hash = h then region.numComplete else 0 := by
  by_cases hh : region.hash = h <;> simp [completions, filter_append, hh]

theorem concat_entry (hx : x.record.event = .regionEntry) :
    (visitsTo h (xs ++ [x])).time = (visitsTo h xs).time ∧
      (visitsTo h (xs ++ [x])).since =
        (if x.record.signal = h then some (x.record.time, x.zero) else (visitsTo h xs).since) ∧
      exactCount h (xs ++ [x]) = exactCount h xs ∧
      (xs ++ [x]).filterMap Reading.short = xs.filterMap Reading.short := by
  have hshort : (xs ++ [x]).filterMap Reading.short = xs.filterMap Reading.short := by
    simp [Reading.short, hx]
  have hcount : exactCount h (xs ++ [x]) = exactCount h xs := by
    rw [exactCount, exactCount, hshort, map_append, map_singleton, exitRecords_concat,
      if_neg fun hexit => absurd (hx.symm.trans hexit.1) (by decide)]
    rfl
  by_cases hh : x.record.signal = h
  · have hmark : x.mark h = some (.enter (x.record.time, x.zero)) := by
      simp [Reading.mark, Record.mark, hx, hh, Mark.map]
    rw [visitsTo_concat_of_some hmark, if_pos hh]
    exact ⟨rfl, rfl, hcount, hshort⟩
  · have hmark : x.mark h = none := by simp [Reading.mark, Record.mark, hx, hh]
    rw [visitsTo_concat_of_none hmark, if_neg hh]
    exact ⟨rfl, rfl, hcount, hshort⟩

theorem concat_exit (hx : x.record.event = .regionExit) :
    exactCount h (xs ++ [x]) = exactCount h xs + (if x.record.signal = h then 1 else 0) ∧
      (xs ++ [x]).filterMap Reading.short = xs.filterMap Reading.short := by
  have hshort : (xs ++ [x]).filterMap Reading.short = xs.filterMap Reading.short := by
    simp [Reading.short, hx]
  refine ⟨?_, hshort⟩
  rw [exactCount, exactCount, hshort, map_append, map_singleton, exitRecords_concat]
  simp only [hx, true_and]
  omega

theorem visitsTo_exit (hx : x.record.event = .regionExit) :
    visitsTo h (xs ++ [x]) =
      if x.record.signal = h then (visitsTo h xs).next (.exit (x.record.time, x.zero))
      else visitsTo h xs := by
  split_ifs with hh
  · exact visitsTo_concat_of_some (by simp [Reading.mark, Record.mark, hx, hh, Mark.map])
  · exact visitsTo_concat_of_none (by simp [Reading.mark, Record.mark, hx, hh])

theorem concat_short (hx : x.short = some region) :
    visitsTo h (xs ++ [x]) = visitsTo h xs ∧
      exactCount h (xs ++ [x]) = exactCount h xs +
        (if region.hash = h then region.numComplete else 0) ∧
      (xs ++ [x]).filterMap Reading.short = xs.filterMap Reading.short ++ [region] := by
  have hevent : x.record.event = .shortRegion := by
    by_contra hne
    rw [Reading.short, if_neg hne] at hx
    cases hx
  have hshort : (xs ++ [x]).filterMap Reading.short = xs.filterMap Reading.short ++ [region] := by
    simp [hx]
  have hmark : x.mark h = none := by simp [Reading.mark, Record.mark, hevent]
  refine ⟨visitsTo_concat_of_none hmark, ?_, hshort⟩
  rw [exactCount, exactCount, hshort, completions_concat, map_append, map_singleton,
    exitRecords_concat, if_neg fun hexit => absurd (hevent.symm.trans hexit.1) (by decide)]
  omega

end Concat

section Knows

variable {i : Option RegionInfo} {h : ℕ} {xs : List Reading} {x : Reading} {region : ShortRegion}

theorem wrapInt_add (n : ℤ) (k : ℕ) : wrapInt (wrapInt n + k) = wrapInt (n + k) :=
  Int.bmod_add_bmod

theorem knows_nil : Knows none h [] := by
  refine ⟨?_, ?_, ?_⟩
  · simp [exactTime, moved, pairedTime, shortTime, visitsTo]
  · simp [exactCount, exitRecords, completions, wrapInt]
  · intro t ht
    simp [visitsTo] at ht

theorem Knows.enter (hi : Knows i h xs) (hx : x.record.event = .regionEntry) :
    Knows (if x.record.signal = h then
        some { i.getD {} with lastEntryTime := x.record.time - x.zero } else i) h (xs ++ [x]) := by
  obtain ⟨htime, hsince, hcount, hshort⟩ := @concat_entry h xs x hx
  have hruntime : exactTime h (xs ++ [x]) - moved h (xs ++ [x]) =
      exactTime h xs - moved h xs := by
    rw [exactTime_sub_moved, exactTime_sub_moved, htime, hshort]
  refine ⟨?_, ?_, fun t ht => ?_⟩
  · rw [hruntime, ← hi.runtime]
    split_ifs <;> rfl
  · rw [hcount, ← hi.count]
    split_ifs <;> rfl
  · rw [hsince] at ht
    split_ifs at ht ⊢ with hh
    · cases ht
      exact ⟨_, rfl, rfl⟩
    · exact hi.entry t ht

/-- An exit adds the time since the entry, each under its own time zero. -/
theorem Knows.leave (hi : Knows i h xs) (hx : x.record.event = .regionExit)
    (hentry : x.record.signal = h → (visitsTo h xs).since ≠ none) :
    Knows (if x.record.signal = h then
        some ((i.getD {}).leave (x.record.time - x.zero)) else i) h (xs ++ [x]) := by
  obtain ⟨hcount, hshort⟩ := @concat_exit h xs x hx
  have hvisits := @visitsTo_exit h xs x hx
  have hruntime := hi.runtime
  rw [exactTime_sub_moved] at hruntime
  by_cases hh : x.record.signal = h
  · obtain ⟨t, ht⟩ := Option.ne_none_iff_exists'.mp (hentry hh)
    obtain ⟨info, rfl, hlast⟩ := hi.entry t ht
    rw [if_pos hh] at hvisits hcount ⊢
    refine ⟨?_, ?_, fun t ht => ?_⟩
    · rw [exactTime_sub_moved, hvisits, hshort, Visits.time_next_exit ht]
      change info.totalRuntime + (x.record.time - x.zero - info.lastEntryTime) = _
      rw [hlast, show info.totalRuntime = _ from hruntime]
      simp only [Prod.fst_add, Prod.snd_add, Prod.fst_sub, Prod.snd_sub]
      omega
    · change wrapInt (info.totalCount + 1) = _
      rw [hcount, show info.totalCount = _ from hi.count]
      exact wrapInt_add _ 1
    · rw [hvisits] at ht
      cases ht
  · rw [if_neg hh] at hvisits hcount ⊢
    refine ⟨?_, by rw [hcount]; exact hi.count, fun t ht => hi.entry t (hvisits ▸ ht)⟩
    rw [exactTime_sub_moved, hvisits, hshort, hruntime]

theorem Knows.addShort (hi : Knows i h xs) (hx : x.short = some region) :
    Knows (if region.hash = h then some ((i.getD {}).addShort region) else i) h (xs ++ [x]) := by
  obtain ⟨hvisits, hcount, hshort⟩ := @concat_short h xs x _ hx
  have hruntime := hi.runtime
  have hcount' := hi.count
  rw [exactTime_sub_moved] at hruntime
  refine ⟨?_, ?_, fun t ht => ?_⟩
  · rw [exactTime_sub_moved, hvisits, hshort, shortTime_concat]
    split_ifs
    · change (i.getD {}).totalRuntime + region.totalTime = _
      omega
    · omega
  · rw [hcount]
    split_ifs
    · change wrapInt ((i.getD {}).totalCount + region.numComplete) = _
      rw [hcount', wrapInt_add]
      rfl
    · exact hcount'
  · rw [hvisits] at ht
    obtain ⟨info, rfl, hlast⟩ := hi.entry t ht
    split_ifs
    · exact ⟨_, rfl, hlast⟩
    · exact ⟨info, rfl, hlast⟩

end Knows

section Update

variable {a : ProcessRegionAggregator} {s : ApplicationSampler} {xs : ℤ → List Reading}
  {x : Reading} {r : Record} {process : ℤ} {hash : ℕ} {change : RegionInfo → RegionInfo}

theorem ofProcess_append (p : ℤ) (xs ys : List Reading) :
    ofProcess p (xs ++ ys) = ofProcess p xs ++ ofProcess p ys := filter_append ..

theorem ofProcess_cons_self (xs : List Reading) :
    ofProcess x.record.process (x :: xs) = x :: ofProcess x.record.process xs :=
  filter_cons_of_pos (decide_eq_true rfl)

theorem ofProcess_self : ofProcess x.record.process [x] = [x] :=
  filter_cons_of_pos (decide_eq_true rfl)

theorem ofProcess_of_ne {p : ℤ} (hp : p ≠ x.record.process) : ofProcess p [x] = [] :=
  filter_cons_of_neg fun h => hp (of_decide_eq_true h).symm

theorem tracks_make : Tracks (make s) fun _ => [] :=
  ⟨fun _ _ => knows_nil, fun p hp => absurd hp (notMem_empty p)⟩

theorem Tracks.emplace (ha : a.Tracks xs)
    (hx : ∀ h, Knows (if hash = h then some (change ((a.info x.record.process h).getD {}))
      else a.info x.record.process h) h (xs x.record.process ++ [x])) :
    (a.emplace x.record.process hash change).Tracks fun p => xs p ++ ofProcess p [x] := by
  constructor
  · intro p h
    by_cases hp : p = x.record.process
    · subst hp
      rw [ofProcess_self, info_emplace]
      have hknows := hx h
      by_cases hh : hash = h
      · subst hh
        rw [if_pos rfl] at hknows
        rwa [if_pos ⟨rfl, rfl⟩]
      · rw [if_neg hh] at hknows
        rwa [if_neg fun h' => hh h'.2.symm]
    · rw [ofProcess_of_ne hp, append_nil, info_emplace, if_neg fun h => hp h.1]
      exact ha.knows p h
  · intro p hp
    rcases mem_emplace.mp hp with rfl | hp
    · rw [ofProcess_self]
      exact append_ne_nil_of_right_ne_nil _ (cons_ne_nil _ _)
    · exact append_ne_nil_of_left_ne_nil (ha.processes p hp) _

/-- The handle of a short region survives being an `int`. -/
theorem shortHandle_of_lt {signal : ℕ} (h : signal < 2 ^ 31) : shortHandle signal = signal := by
  have hwrap : wrapInt signal = signal := Int.bmod_eq_of_le (by omega) (by omega)
  rw [shortHandle, hwrap]
  omega

/-- What the aggregator reads of the sampler. -/
abbrev told (s : ApplicationSampler) (rs : List Record) : List Reading :=
  readings s.timeZero s.shortRegionBuffer rs

/-- Every record of the sampler is counted, and none raises an exception. -/
theorem updateRecord_tracks (ha : a.Tracks xs)
    (hexit : r.event = .regionExit → (visitsTo r.signal (xs r.process)).since ≠ none)
    (hshort : r.event = .shortRegion → r.signal < s.shortRegionBuffer.length ∧ r.signal < 2 ^ 31) :
    wp (updateRecord s s.timeZero r)
      (fun _ a' => (a'.Tracks fun p => xs p ++ ofProcess p (told s [r])) ∧
        a'.numProcess = a.numProcess)
      (fun _ _ => False) a := by
  set x : Reading := ⟨r, s.timeZero, s.shortRegionBuffer[r.signal]?⟩ with hx
  have hread : isRead r = true → told s [r] = [x] := fun h => by
    rw [told, readings, filter_cons_of_pos h]
    rfl
  unfold updateRecord
  cases hevent : r.event with
  | regionEntry =>
    rw [hread (by simp [isRead, isBoundary, hevent])]
    dsimp only
    rw [wp_modify]
    exact ⟨ha.emplace (x := x) fun h => (ha.knows _ h).enter (x := x) hevent, rfl⟩
  | regionExit =>
    rw [hread (by simp [isRead, isBoundary, hevent])]
    have hopen := hexit hevent
    obtain ⟨t, ht⟩ := Option.ne_none_iff_exists'.mp hopen
    obtain ⟨info, hinfo, -⟩ := (ha.knows r.process r.signal).entry t ht
    obtain ⟨hprocess, hregion⟩ := mem_of_info hinfo
    dsimp only
    rw [wp_bind, wp_get, if_neg (not_not.mpr hprocess), wp_bind, wp_get,
      if_neg (not_not.mpr hregion), wp_modify]
    refine ⟨ha.emplace (x := x) fun h => (ha.knows _ h).leave (x := x) hevent ?_, rfl⟩
    rintro rfl
    exact hopen
  | shortRegion =>
    rw [hread (by simp [isRead, hevent])]
    obtain ⟨hlt, hint⟩ := hshort hevent
    obtain ⟨region, hregion⟩ : ∃ region, s.shortRegionBuffer[r.signal]? = some region :=
      ⟨_, getElem?_eq_getElem hlt⟩
    have hget := ApplicationSampler.getShortRegion_eq_ok.mpr hregion
    have hxshort : x.short = some region := by
      rw [Reading.short, hx, if_pos hevent]
      exact hregion
    dsimp only
    rw [shortHandle_of_lt hint, hget, wp_bind]
    refine wp_ret rfl ?_
    rw [wp_modify]
    exact ⟨ha.emplace (x := x) fun h => (ha.knows _ h).addShort hxshort, rfl⟩
  | _ =>
    have hnone : told s [r] = [] := by simp [told, readings, isRead, isBoundary, hevent]
    rw [hnone]
    dsimp only
    rw [wp_pure]
    exact ⟨by simpa [ofProcess] using ha, rfl⟩

/-- Each exit of a stream leaves the region of the entry before it. -/
def Matched (xs : List Reading) : Prop :=
  ∀ pre x post, xs = pre ++ x :: post → x.record.event = .regionExit →
    (visitsTo x.record.signal pre).since ≠ none

theorem told_append (s : ApplicationSampler) (rs ss : List Record) :
    told s (rs ++ ss) = told s rs ++ told s ss := by
  rw [told, readings, filter_append, map_append]
  rfl

/-- **An update adds up what the sampler has to tell**, without an exception. -/
theorem update_tracks (ha : a.Tracks xs)
    (hmatched : ∀ p, Matched (xs p ++ ofProcess p (told s s.getRecords)))
    (hshort : ∀ r ∈ s.getRecords, r.event = .shortRegion →
      r.signal < s.shortRegionBuffer.length ∧ r.signal < 2 ^ 31) :
    wp (update s)
      (fun _ a' => (a'.Tracks fun p => xs p ++ ofProcess p (told s s.getRecords)) ∧
        a'.numProcess = a.numProcess)
      (fun _ _ => False) a := by
  unfold update
  refine wp_forM_done (I := fun pre (a' : ProcessRegionAggregator) =>
    (a'.Tracks fun p => xs p ++ ofProcess p (told s pre)) ∧ a'.numProcess = a.numProcess)
    ⟨by simpa [ofProcess, told, readings] using ha, rfl⟩ ?_
  rintro pre r post hrecords a' ⟨ha', hnum⟩
  refine wp_mono (updateRecord_tracks ha' (fun hevent => ?_) (hshort r ?_)) ?_ fun _ _ h => h
  · set x : Reading := ⟨r, s.timeZero, s.shortRegionBuffer[r.signal]?⟩ with hx
    have hread : isRead r = true := by simp [isRead, isBoundary, hevent]
    have hcons : told s (r :: post) = x :: told s post := by
      rw [told, readings, filter_cons_of_pos hread]
      rfl
    refine hmatched r.process _ x (ofProcess r.process (told s post)) ?_ hevent
    rw [hrecords, told_append, hcons, ofProcess_append, append_assoc]
    exact congrArg (xs r.process ++ ·) (congrArg (ofProcess r.process (told s pre) ++ ·)
      (ofProcess_cons_self (x := x) _))
  · rw [hrecords]
    exact mem_append_right _ mem_cons_self
  · rintro - b ⟨hb, hnum'⟩
    refine ⟨?_, hnum'.trans hnum⟩
    have heq : (fun p => xs p ++ ofProcess p (told s (pre ++ [r]))) = fun p =>
        xs p ++ ofProcess p (told s pre) ++ ofProcess p (told s [r]) := by
      funext p
      rw [told_append, ofProcess_append, append_assoc]
    rw [heq]
    exact hb

end Update

/-! ### Streams that the validator accepts -/

section Accepted

variable {rs : List Record} {v : ValidateRecord} {h : ℕ} {xs ys : List Reading}

theorem regionHash_start {r : Record} (hv : (v.start r).regionHash ≠ regionHashInvalid) :
    (v.start r).regionHash = v.regionHash := by
  unfold ValidateRecord.start at hv ⊢
  split_ifs at hv ⊢
  · exact absurd rfl hv
  · rfl

theorem since_of_run (hrun : ({} : ValidateRecord).run rs = some v)
    (hv : v.regionHash ≠ regionHashInvalid) :
    (Visits.of (rs.filterMap (Record.mark v.regionHash))).since ≠ none := by
  induction rs using List.reverseRecOn generalizing v with
  | nil =>
    cases hrun
    exact absurd rfl hv
  | append_singleton rs r ih =>
    obtain ⟨w, hw, hstep⟩ := ValidateRecord.run_concat_eq_some.mp hrun
    obtain ⟨-, -, -, rfl⟩ := ValidateRecord.step_eq_some.mp hstep
    rw [filterMap_append]
    unfold ValidateRecord.advance at hv ⊢
    cases hevent : r.event with
    | regionEntry => simp [Record.mark, hevent]
    | regionExit =>
      rw [hevent] at hv
      exact absurd rfl hv
    | _ =>
      rw [hevent] at hv
      dsimp only at hv ⊢
      have hmark : [r].filterMap (Record.mark (w.start r).regionHash) = [] := by
        simp [Record.mark, hevent]
      rw [hmark, append_nil, regionHash_start hv]
      exact ih hw (regionHash_start hv ▸ hv)

/-- The entries and exits, and the time zeros that they are read under. -/
def bounds (xs : List Reading) : List (Record × ℤ) :=
  (xs.filter fun x => x.record.isBoundary).map fun x => (x.record, x.zero)

theorem bounds_append (xs ys : List Reading) : bounds (xs ++ ys) = bounds xs ++ bounds ys := by
  rw [bounds, filter_append, map_append]
  rfl

theorem bounds_cons_of_boundary {x : Reading} (hx : x.record.isBoundary = true) :
    bounds (x :: xs) = (x.record, x.zero) :: bounds xs := by
  simp [bounds, hx]

theorem bounds_cons_of_not_boundary {x : Reading} (hx : x.record.isBoundary = false) :
    bounds (x :: xs) = bounds xs := by
  simp [bounds, hx]

theorem map_fst_bounds (xs : List Reading) :
    (bounds xs).map Prod.fst = (xs.map Reading.record).filter isBoundary := by
  rw [bounds, map_map, filter_map]
  rfl

/-- Only the entries and exits have marks. -/
theorem filterMap_mark_filter (h : ℕ) (rs : List Record) :
    (rs.filter isBoundary).filterMap (Record.mark h) = rs.filterMap (Record.mark h) := by
  rw [filterMap_filter]
  refine filterMap_congr fun r _ => ?_
  split_ifs with hr
  · rfl
  · exact (mark_of_not_isBoundary (Bool.not_eq_true _ ▸ hr)).symm

theorem filterMap_mark_bounds (h : ℕ) (xs : List Reading) :
    (bounds xs).filterMap (fun b => (b.1.mark h).map (Mark.map fun t => (t, b.2))) =
      xs.filterMap (Reading.mark h) := by
  induction xs with
  | nil => rfl
  | cons x xs ih =>
    cases hx : x.record.isBoundary with
    | true =>
      rw [bounds_cons_of_boundary hx, filterMap_cons, filterMap_cons, ih]
      rfl
    | false =>
      rw [bounds_cons_of_not_boundary hx, ih, filterMap_cons, Reading.mark,
        mark_of_not_isBoundary hx]
      rfl

theorem exitRecords_filter (h : ℕ) (rs : List Record) :
    exitRecords h (rs.filter isBoundary) = exitRecords h rs := by
  unfold exitRecords
  rw [countP_filter]
  refine countP_congr fun r _ => ?_
  simp only [Bool.and_eq_true, beq_iff_eq, isBoundary, Bool.or_eq_true]
  exact ⟨fun hr => hr.1, fun hr => ⟨hr, .inr hr.1⟩⟩

/-- The same entries and exits, read under the same time zeros, and the same short regions. -/
structure Alike (xs ys : List Reading) : Prop where
  bounds : bounds xs = bounds ys
  shorts : xs.filterMap Reading.short = ys.filterMap Reading.short

theorem Alike.append {xs' ys' : List Reading} (h : Alike xs ys) (h' : Alike xs' ys') :
    Alike (xs ++ xs') (ys ++ ys') := by
  refine ⟨?_, ?_⟩
  · rw [bounds_append, bounds_append, h.bounds, h'.bounds]
  · rw [filterMap_append, filterMap_append, h.shorts, h'.shorts]

theorem Alike.visitsTo (hxy : Alike xs ys) (h : ℕ) : visitsTo h xs = visitsTo h ys := by
  rw [ProcessRegionAggregator.visitsTo, ← filterMap_mark_bounds, hxy.bounds,
    filterMap_mark_bounds]
  rfl

theorem Alike.exactTime (hxy : Alike xs ys) (h : ℕ) : exactTime h xs = exactTime h ys := by
  rw [ProcessRegionAggregator.exactTime, ProcessRegionAggregator.exactTime, ← fst_time_visitsTo,
    ← fst_time_visitsTo, hxy.visitsTo, hxy.shorts]

theorem Alike.exactCount (hxy : Alike xs ys) (h : ℕ) : exactCount h xs = exactCount h ys := by
  rw [ProcessRegionAggregator.exactCount, ProcessRegionAggregator.exactCount,
    ← exitRecords_filter, ← map_fst_bounds, hxy.bounds, map_fst_bounds, exitRecords_filter,
    hxy.shorts]

theorem Alike.moved (hxy : Alike xs ys) (h : ℕ) : moved h xs = moved h ys := by
  rw [ProcessRegionAggregator.moved, ProcessRegionAggregator.moved, hxy.visitsTo]

/-- The entries and exits of a stream that the validator accepts match. -/
theorem matched_of_run (hrun : ({} : ValidateRecord).run rs = some v)
    (hrs : (bounds xs).map Prod.fst = rs.filter isBoundary) : Matched xs := by
  rintro pre x post rfl hexit
  have hboundary : x.record.isBoundary = true := by simp [isBoundary, hexit]
  rw [bounds_append, bounds_cons_of_boundary hboundary, map_append, map_cons] at hrs
  obtain ⟨rs₁, rs₂, rfl, h₁, h₂⟩ := filter_eq_append_iff.mp hrs.symm
  obtain ⟨rs₃, rs₄, rfl, hnone, -, -⟩ := filter_eq_cons_iff.mp h₂
  rw [← append_assoc] at hrun
  obtain ⟨w, hw, hrest⟩ := ValidateRecord.run_append_eq_some.mp hrun
  rw [ValidateRecord.run, Option.bind_eq_some_iff] at hrest
  obtain ⟨w', hstep, -⟩ := hrest
  obtain ⟨-, -, hallowed, -⟩ := ValidateRecord.step_eq_some.mp hstep
  rw [ValidateRecord.Allowed, hexit] at hallowed
  obtain ⟨⟨hvalid, -⟩, hsignal⟩ := hallowed
  have hhash : x.record.signal = w.regionHash := by
    rw [hsignal]
    exact regionHash_start (hsignal ▸ hvalid)
  have hopen := since_of_run hw (hhash ▸ hvalid)
  have hmarks : (rs₁ ++ rs₃).filterMap (Record.mark w.regionHash) =
      (pre.map Reading.record).filterMap (Record.mark w.regionHash) := by
    have hnil : rs₃.filter isBoundary = [] :=
      filter_eq_nil_iff.mpr fun r hr => hnone r hr
    rw [← filterMap_mark_filter, filter_append, hnil, append_nil, h₁, map_fst_bounds,
      filterMap_mark_filter]
  rw [hmarks, fst_since_visitsTo, ← hhash] at hopen
  exact fun h => hopen (by rw [h]; rfl)

end Accepted

/-! ### The averages -/

section Averages

variable {a : ProcessRegionAggregator} {xs : ℤ → List Reading} {pids : List ℤ} {h : ℕ}
  {total : RegionInfo → ℤ}

theorem sum_keys (ha : a.Tracks xs) (hpids : pids.Nodup) (hxs : ∀ p ∉ pids, xs p = [])
    (htotal : total {} = 0) :
    (a.regionInfo.keys.map fun p => (a.info p h).elim 0 total).sum =
      (pids.map fun p => total ((a.info p h).getD {})).sum := by
  have helim : ∀ p, (a.info p h).elim 0 total = total ((a.info p h).getD {}) := by
    intro p
    cases a.info p h with
    | none => exact htotal.symm
    | some info => rfl
  have hmem : ∀ p ∈ a.regionInfo, p ∈ pids := fun p hp => by
    by_contra hnot
    exact ha.processes p hp (hxs p hnot)
  simp only [helim]
  rw [← sum_toFinset _ a.regionInfo.keys_nodup, ← sum_toFinset _ hpids]
  refine Finset.sum_subset (fun p hp => ?_) fun p _ hp => ?_
  · exact mem_toFinset.mpr (hmem p (AList.mem_keys.mpr (mem_toFinset.mp hp)))
  · have hnone : a.regionInfo.lookup p = none :=
      lookup_eq_none.mpr fun h => hp (mem_toFinset.mpr (AList.mem_keys.mp h))
    rw [info, regionsOf, hnone]
    exact htotal

theorem average_mul (ha : a.Tracks xs) (hpids : pids.Nodup) (hxs : ∀ p ∉ pids, xs p = [])
    (hnum : a.numProcess = pids.length) (htotal : total {} = 0) :
    a.average total h * pids.length = (pids.map fun p => total ((a.info p h).getD {})).sum := by
  unfold average
  rw [sum_keys ha hpids hxs htotal, hnum]
  dsimp only
  split_ifs with hzero
  · have hne : (pids.length : ℚ) ≠ 0 := Nat.cast_ne_zero.mpr hzero
    exact div_mul_cancel₀ _ hne
  · obtain rfl : pids = [] := length_eq_zero_iff.mp (not_not.mp hzero)
    simp

/-- **The average time is exact when the moves of the time zero cancel out.** -/
theorem getRuntimeAverage_mul_eq_iff (ha : a.Tracks xs) (hpids : pids.Nodup)
    (hxs : ∀ p ∉ pids, xs p = []) (hnum : a.numProcess = pids.length) :
    a.getRuntimeAverage h * pids.length = (pids.map fun p => exactTime h (xs p)).sum ↔
      (pids.map fun p => moved h (xs p)).sum = 0 := by
  have hsum : (pids.map fun p => ((a.info p h).getD {}).totalRuntime).sum +
      (pids.map fun p => moved h (xs p)).sum = (pids.map fun p => exactTime h (xs p)).sum := by
    rw [← sum_map_add]
    refine congrArg List.sum (map_congr_left fun p _ => ?_)
    rw [(ha.knows p h).runtime, Int.sub_add_cancel]
  rw [getRuntimeAverage, average_mul ha hpids hxs hnum rfl, Int.cast_inj, ← hsum]
  omega

theorem wrapInt_le (c : ℕ) : wrapInt c ≤ c := by
  unfold wrapInt
  rw [Int.bmod_def]
  split_ifs <;> omega

theorem wrapInt_eq_iff (c : ℕ) : wrapInt c = c ↔ c < 2 ^ 31 := by
  unfold wrapInt
  rw [Int.bmod_def]
  split_ifs <;> omega

/-- **The average count is exact when the counts are `int`s.** -/
theorem getCountAverage_mul_eq_iff (ha : a.Tracks xs) (hpids : pids.Nodup)
    (hxs : ∀ p ∉ pids, xs p = []) (hnum : a.numProcess = pids.length) :
    a.getCountAverage h * pids.length = ((pids.map fun p => exactCount h (xs p)).sum : ℕ) ↔
      ∀ p ∈ pids, exactCount h (xs p) < 2 ^ 31 := by
  have hsum : (pids.map fun p => ((a.info p h).getD {}).totalCount).sum =
      (pids.map fun p => wrapInt (exactCount h (xs p))).sum :=
    congrArg List.sum (map_congr_left fun p _ => (ha.knows p h).count)
  rw [getCountAverage, average_mul ha hpids hxs hnum rfl, hsum, ← sum_toFinset _ hpids,
    ← sum_toFinset _ hpids, ← Int.cast_natCast, Int.cast_inj, Nat.cast_sum,
    Finset.sum_eq_sum_iff_of_le fun p _ => wrapInt_le _]
  simp only [mem_toFinset, wrapInt_eq_iff]

end Averages

end ProcessRegionAggregator

end Geopm
