import Geopm.App.FilteredStream

/-!
# The name of the edit distance filter

* `EditDistEpochRecordFilter.parseName` : the five parameters in a name;
* `EditDistEpochRecordFilter.ofName` : the filter that the name builds, which parses the name once
  for every parameter and holds the two factors in an `int`;
* `ActsAsGiven` : the filter of the name and the filter of the parameters have the same output, and
  use their table within its size;
* `actsAsGiven_of_alike` : they do on every stream on which the whole part of the factors decides
  like the factors.

The conversions `std::stoi` and `std::stod` are parameters: what they make of a piece of the name,
or nothing when they throw.  The factors are numbers; a cast to `int` of anything else is undefined.
-/

namespace Geopm

open Prog

/-- What `EditDistEpochRecordFilter::parse_name` returns. -/
structure EditDistParameters where
  historyBufferSize : ℤ := 50
  minHysteresisBasePeriod : ℤ := 4
  minDetectablePeriod : ℤ := 3
  stablePeriodHysteresis : ℚ := 1
  unstablePeriodHysteresis : ℚ := 3 / 2
deriving DecidableEq, Repr

/-- `string_split` at the commas: an empty string has no pieces. -/
def stringSplit (str : String) : List String :=
  if str.isEmpty then [] else (str.toList.splitOn ',').map String.ofList

namespace EditDistEpochRecordFilter

variable (stoi : String → Option ℤ) (stod : String → Option ℚ)

/-- A parameter keeps its default when the name has no piece for it. -/
def parsePiece {α : Type} (convert : String → Option α) (invalid : String) (piece : Option String)
    (default : α) : Except Exception α :=
  match piece with
  | none => .ok default
  | some piece =>
    match convert piece with
    | none => .error ⟨"EditDistEpochRecordFilter::parse_name(): invalid " ++ invalid, [], .invalid⟩
    | some value => .ok value

def parseName (name : String) : Except Exception EditDistParameters := do
  let pieces := stringSplit name
  let defaults : EditDistParameters := {}
  if pieces[0]? ≠ some "edit_distance" then
    throw ⟨"Unknown filter name", [], .invalid⟩
  let size ← parsePiece stoi "buffer size" pieces[1]? defaults.historyBufferSize
  let basePeriod ← parsePiece stoi "hysteresis base period" pieces[2]?
    defaults.minHysteresisBasePeriod
  let minPeriod ← parsePiece stoi "minimum detectable period" pieces[3]?
    defaults.minDetectablePeriod
  let stable ← parsePiece stod "stable hysteresis" pieces[4]? defaults.stablePeriodHysteresis
  let unstable ← parsePiece stod "unstable hysteresis" pieces[5]?
    defaults.unstablePeriodHysteresis
  if 6 < pieces.length then
    throw ⟨"Too many commas in filter name", [], .invalid⟩
  return { historyBufferSize := size
           minHysteresisBasePeriod := basePeriod
           minDetectablePeriod := minPeriod
           stablePeriodHysteresis := stable
           unstablePeriodHysteresis := unstable }

def parseHistoryBufferSize (name : String) : Except Exception ℤ :=
  (parseName stoi stod name).map (·.historyBufferSize)

def parseMinHysteresisBasePeriod (name : String) : Except Exception ℤ :=
  (parseName stoi stod name).map (·.minHysteresisBasePeriod)

def parseMinDetectablePeriod (name : String) : Except Exception ℤ :=
  (parseName stoi stod name).map (·.minDetectablePeriod)

/-- `parse_stable_period_hysteresis`: the function returns an `int`. -/
def parseStablePeriodHysteresis (name : String) : Except Exception ℤ :=
  (parseName stoi stod name).map fun p => truncate p.stablePeriodHysteresis

/-- `parse_unstable_period_hysteresis`: the function returns an `int`. -/
def parseUnstablePeriodHysteresis (name : String) : Except Exception ℤ :=
  (parseName stoi stod name).map fun p => truncate p.unstablePeriodHysteresis

/-- The constructor from a name. -/
def ofName (name : String) : Except Exception EditDistEpochRecordFilter := do
  make (← parseHistoryBufferSize stoi stod name) (← parseMinHysteresisBasePeriod stoi stod name)
    (← parseMinDetectablePeriod stoi stod name) (← parseStablePeriodHysteresis stoi stod name)
    (← parseUnstablePeriodHysteresis stoi stod name)

/-- The filter of the parameters. -/
def ofParameters (p : EditDistParameters) : Except Exception EditDistEpochRecordFilter :=
  make p.historyBufferSize p.minHysteresisBasePeriod p.minDetectablePeriod
    p.stablePeriodHysteresis p.unstablePeriodHysteresis

/-- The whole parts of the factors. -/
def truncated (f : EditDistEpochRecordFilter) : EditDistEpochRecordFilter :=
  { f with
    stablePeriodHysteresis := truncate f.stablePeriodHysteresis
    unstablePeriodHysteresis := truncate f.unstablePeriodHysteresis }

/-- What the filter makes of every record, up to the first exception. -/
def outputs : List Record → EditDistEpochRecordFilter → List (Except Exception (List Record))
  | [], _ => []
  | r :: rs, f =>
    match filter r f with
    | .ok out f' => .ok out :: outputs rs f'
    | .error x _ => [.error x]

/-- The condition holds of the filter before every record of the stream. -/
def Throughout (I : Record → EditDistEpochRecordFilter → Prop) :
    List Record → EditDistEpochRecordFilter → Prop
  | [], _ => True
  | r :: rs, f =>
    I r f ∧ match filter r f with
      | .ok _ f' => Throughout I rs f'
      | .error _ _ => True

/-! ### The table -/

/-- The number of cells that the table gets: a product of three `int`s. -/
def tableCells (size : ℤ) : ℤ := toInt32 (toUnsigned (size * size * size))

/-- No index into the table divides by zero or is outside of the table. -/
def SafeTable (d : EditDistPeriodicityDetector) : Prop :=
  d.historyBufferSize ≠ 0 ∧ ∀ ii jj mm, d.didx ii jj mm < d.dp.length

/-- The filter of the name acts as its parameters say on the stream. -/
structure ActsAsGiven (name : String) (p : EditDistParameters) (rs : List Record) : Prop where
  /-- Both filters have the same output, or neither can be built. -/
  same : (ofName stoi stod name).map (outputs rs) = (ofParameters p).map (outputs rs)
  /-- A table that can be allocated has a cell for every index. -/
  allocated : 0 ≤ tableCells p.historyBufferSize →
    tableCells p.historyBufferSize =
      p.historyBufferSize * p.historyBufferSize * p.historyBufferSize
  /-- Every entry that the history takes is compared within the table. -/
  inTable : ∀ f, ofName stoi stod name = .ok f →
    Throughout (fun r f => r.event = .regionEntry → 0 < f.edpd.historyBuffer.maxSize →
      SafeTable f.edpd) rs f

end EditDistEpochRecordFilter

namespace EditDistPeriodicityDetector

/-- The capacity of the history, the size, and the number of cells of the table. -/
def shape (d : EditDistPeriodicityDetector) : ℕ × ℕ × ℕ :=
  (d.historyBuffer.maxSize, d.historyBufferSize, d.dp.length)

theorem dset_keeps (ii jj mm val : ℕ) : Keeps shape (dset ii jj mm val) := by
  refine Keeps.modify fun d => ?_
  simp [shape]

theorem calcPeriod_keeps : Keeps shape calcPeriod := by
  unfold calcPeriod
  refine Keeps.get.bind fun d => Keeps.ite (Keeps.pure _) ?_
  refine (Keeps.forM fun ii => dset_keeps _ _ _ _).bind fun _ => ?_
  refine (Keeps.forM fun mm => dset_keeps _ _ _ _).bind fun _ => ?_
  refine (Keeps.ret _).bind fun last => ?_
  refine (Keeps.forM fun mm => Keeps.forM fun ii => ?_).bind fun _ => ?_
  · unfold fillCell
    exact Keeps.get.bind fun d => (Keeps.ret _).bind fun compared => dset_keeps _ _ _ _
  · refine Keeps.get.bind fun d => ?_
    refine Keeps.bind (Keeps.modify fun d => (rfl : shape { d with score := _ } = _)) fun _ => ?_
    exact (Keeps.ret _).bind fun period =>
      Keeps.modify fun d => (rfl : shape { d with period := _ } = _)

/-- The table keeps its cells and the history its capacity. -/
theorem update_keeps (r : Record) : Keeps shape (update r) := by
  unfold update
  refine Keeps.ite ?_ (Keeps.pure _)
  refine Keeps.bind (fun d => ?_) fun _ => Keeps.bind
    (Keeps.modify fun d => (rfl : shape { d with recordCount := _ } = _)) fun _ => calcPeriod_keeps
  rw [wp_zoom]
  refine wp_mono (CircularBuffer.insert_spec _ r.signal) ?_ ?_
  · rintro - b ⟨-, hmax, -⟩
    simp [shape, hmax]
  · rintro x b ⟨-, rfl⟩
    rfl

end EditDistPeriodicityDetector

open EditDistPeriodicityDetector (update)

/-! ### Equal decisions -/

namespace EditDistEpochRecordFilter

variable (stoi : String → Option ℤ) (stod : String → Option ℚ)

/-- What `epoch_detected` does to the stability of the detected period. -/
def trackUnstable (f : EditDistEpochRecordFilter) : EditDistEpochRecordFilter :=
  if f.edpd.period = f.lastPeriod then { f with periodUnstable := 0 }
  else { f with periodUnstable := f.periodUnstable + 1 }

/-- The condition of `epoch_detected` for a period that is lost. -/
def IsLost (f : EditDistEpochRecordFilter) : Prop :=
  truncate (f.unstablePeriodHysteresis * f.lastPeriod) ≤ f.periodUnstable

instance (f : EditDistEpochRecordFilter) : Decidable f.IsLost := by
  unfold IsLost
  infer_instance

/-- In the state in which `epoch_detected` is called, the whole part of the factor decides like the
factor. -/
def DecidesAlike (f : EditDistEpochRecordFilter) : Prop :=
  if f.isPeriodDetected then (f.trackUnstable.truncated.IsLost ↔ f.trackUnstable.IsLost)
  else (f.trackPeriod.truncated.IsStable ↔ f.trackPeriod.IsStable)

/-- What makes the filter of the name act as given on the stream. -/
structure Alike (p : EditDistParameters) (rs : List Record) : Prop where
  /-- The cube of the size is an `int`, or appears to the table as a negative number. -/
  size : p.historyBufferSize.natAbs ≤ 1290 ∨ tableCells p.historyBufferSize < 0
  /-- The casts of the factors are defined. -/
  stable_le : (truncate p.stablePeriodHysteresis).natAbs ≤ intMax
  unstable_le : (truncate p.unstablePeriodHysteresis).natAbs ≤ intMax
  decides : ∀ f, ofParameters p = .ok f →
    Throughout (fun r f => r.event = .regionEntry → ∀ d,
      update r f.edpd = .ok () d →
        DecidesAlike { f with edpd := d }) rs f

section

variable {stoi stod} {f f' : EditDistEpochRecordFilter} {p : EditDistParameters}
  {rs : List Record} {r : Record} {name : String}

@[simp] theorem trackPeriod_truncated : f.truncated.trackPeriod = f.trackPeriod.truncated := by
  unfold trackPeriod truncated
  split_ifs <;> rfl

@[simp] theorem trackUnstable_truncated :
    f.truncated.trackUnstable = f.trackUnstable.truncated := by
  unfold trackUnstable truncated
  split_ifs <;> rfl

theorem epochDetected_of_undetected (h : f.isPeriodDetected = false) :
    epochDetected f =
      if f.trackPeriod.IsStable then
        .ok true { f.trackPeriod with
          isPeriodDetected := true
          lastEpoch := f.trackPeriod.edpd.recordCount
          periodStable := 0 }
      else .ok false f.trackPeriod := by
  have hdetected : ¬ f.isPeriodDetected := by
    rw [h]
    exact Bool.false_ne_true
  refine (congrFun (if_pos hdetected) f).trans ?_
  dsimp only
  split_ifs <;> rfl

theorem epochDetected_of_detected (h : f.isPeriodDetected = true) :
    epochDetected f =
      if f.trackUnstable.IsLost then
        .ok false { f.trackUnstable with isPeriodDetected := false, periodUnstable := 0 }
      else if f.trackUnstable.lastPeriod ≤ f.trackUnstable.edpd.period ∧
          f.trackUnstable.edpd.period ≤
            (f.trackUnstable.edpd.recordCount : ℤ) - f.trackUnstable.lastEpoch then
        .ok true { f.trackUnstable with lastEpoch := f.trackUnstable.edpd.recordCount }
      else .ok false f.trackUnstable := by
  refine (congrFun (if_neg (not_not.mpr h)) f).trans ?_
  by_cases hlost : f.trackUnstable.IsLost
  · rw [if_pos hlost]
    exact congrFun (if_pos hlost) f
  · rw [if_neg hlost]
    refine (congrFun (if_neg hlost) f).trans ?_
    by_cases hrepeats : f.trackUnstable.lastPeriod ≤ f.trackUnstable.edpd.period ∧
        f.trackUnstable.edpd.period ≤
          (f.trackUnstable.edpd.recordCount : ℤ) - f.trackUnstable.lastEpoch
    · rw [if_pos hrepeats]
      exact congrFun (if_pos hrepeats) f
    · rw [if_neg hrepeats]
      exact congrFun (if_neg hrepeats) f

/-- A state machine that decides alike goes through the same states. -/
theorem epochDetected_truncated (h : f.DecidesAlike) :
    epochDetected f.truncated = mapState truncated (epochDetected f) := by
  unfold DecidesAlike at h
  cases hdetected : f.isPeriodDetected with
  | false =>
    rw [hdetected, if_neg Bool.false_ne_true] at h
    rw [epochDetected_of_undetected (f := f.truncated) hdetected,
      epochDetected_of_undetected hdetected, trackPeriod_truncated]
    by_cases hstable : f.trackPeriod.IsStable
    · rw [if_pos hstable, if_pos (h.mpr hstable)]
      rfl
    · rw [if_neg hstable, if_neg (mt h.mp hstable)]
      rfl
  | true =>
    rw [hdetected, if_pos rfl] at h
    rw [epochDetected_of_detected (f := f.truncated) hdetected,
      epochDetected_of_detected hdetected, trackUnstable_truncated]
    by_cases hlost : f.trackUnstable.IsLost
    · rw [if_pos hlost, if_pos (h.mpr hlost)]
      rfl
    · rw [if_neg hlost, if_neg (mt h.mp hlost)]
      by_cases hrepeats : f.trackUnstable.lastPeriod ≤ f.trackUnstable.edpd.period ∧
          f.trackUnstable.edpd.period ≤
            (f.trackUnstable.edpd.recordCount : ℤ) - f.trackUnstable.lastEpoch
      · rw [if_pos hrepeats]
        exact if_pos hrepeats
      · rw [if_neg hrepeats]
        exact if_neg hrepeats

theorem filter_of_not_entry (hr : r.event ≠ .regionEntry) :
    filter r f = .ok (if r.event = .epochCount then [] else [r]) f := by
  unfold filter
  split_ifs <;> rfl

theorem filter_of_entry (hr : r.event = .regionEntry) :
    filter r f = (do
      zoom edpd (fun d f => { f with edpd := d }) (update r)
      let detected ← epochDetected
      if detected then
        modify fun f => { f with epochCount := f.epochCount + 1 }
        let f ← get
        pure [r, r.epochAfter f.epochCount]
      else pure [r] : EStateM Exception EditDistEpochRecordFilter (List Record)) f := by
  have hepoch : r.event ≠ .epochCount := by
    rw [hr]
    exact nofun
  unfold filter
  rw [if_neg hepoch, if_pos hr]

theorem filter_truncated (h : r.event = .regionEntry → ∀ d,
    update r f.edpd = .ok () d → DecidesAlike { f with edpd := d }) :
    filter r f.truncated = mapState truncated (filter r f) := by
  by_cases hr : r.event = .regionEntry
  · rw [filter_of_entry hr, filter_of_entry hr]
    refine bind_mapState ?_ fun _ f' hf' => bind_mapState ?_ fun detected f'' _ => ?_
    · exact zoom_mapState rfl fun _ => rfl
    · obtain ⟨d, hd, rfl⟩ := zoom_eq_ok hf'
      exact epochDetected_truncated (h hr d hd)
    · cases detected <;> rfl
  · rw [filter_of_not_entry hr, filter_of_not_entry hr]
    rfl

theorem outputs_truncated
    (h : Throughout (fun r f => r.event = .regionEntry → ∀ d,
      update r f.edpd = .ok () d →
        DecidesAlike { f with edpd := d }) rs f) :
    outputs rs f.truncated = outputs rs f := by
  induction rs generalizing f with
  | nil => rfl
  | cons r rs ih =>
    obtain ⟨hr, hrest⟩ := h
    rw [outputs, outputs, filter_truncated hr]
    cases hf : filter r f with
    | ok out f' =>
      rw [hf] at hrest
      exact congrArg _ (ih hrest)
    | error x f' => rfl

theorem ofName_eq (hp : parseName stoi stod name = .ok p) :
    ofName stoi stod name = (ofParameters p).map truncated := by
  unfold ofName parseHistoryBufferSize parseMinHysteresisBasePeriod parseMinDetectablePeriod
    parseStablePeriodHysteresis parseUnstablePeriodHysteresis ofParameters make
  rw [hp]
  cases hd : EditDistPeriodicityDetector.make p.historyBufferSize with
  | error x => simp [hd, Except.map, bind, Except.bind]
  | ok d =>
    simp only [hd, Except.map, bind, Except.bind]
    rfl

/-! ### The table is used within its size -/

/-- What no record changes: the shape of the detector, and the factors. -/
def constants (f : EditDistEpochRecordFilter) : (ℕ × ℕ × ℕ) × ℚ × ℚ :=
  (f.edpd.shape, f.stablePeriodHysteresis, f.unstablePeriodHysteresis)

theorem constants_trackPeriod : f.trackPeriod.constants = f.constants := by
  unfold trackPeriod
  split_ifs <;> rfl

theorem constants_trackUnstable : f.trackUnstable.constants = f.constants := by
  unfold trackUnstable
  split_ifs <;> rfl

theorem epochDetected_keeps : Keeps constants epochDetected := by
  intro f
  unfold wp
  cases hdetected : f.isPeriodDetected with
  | false =>
    rw [epochDetected_of_undetected hdetected]
    split_ifs <;> exact constants_trackPeriod
  | true =>
    rw [epochDetected_of_detected hdetected]
    split_ifs <;> exact constants_trackUnstable

theorem filter_keeps (r : Record) : Keeps constants (filter r) := by
  unfold filter
  refine Keeps.ite (Keeps.pure _) (Keeps.ite (Keeps.bind (fun f => ?_) fun _ => ?_) (Keeps.pure _))
  · rw [wp_zoom]
    refine wp_mono (EditDistPeriodicityDetector.update_keeps r f.edpd) ?_ ?_ <;>
      exact fun _ d hd => congrArg (·, f.stablePeriodHysteresis, f.unstablePeriodHysteresis) hd
  · refine epochDetected_keeps.bind fun detected => Keeps.ite (Keeps.bind ?_ fun _ => ?_)
      (Keeps.pure _)
    · exact Keeps.modify fun f => (rfl : constants { f with epochCount := _ } = _)
    · exact Keeps.get.bind fun f => Keeps.pure _

/-- What follows from the constants holds before every record. -/
theorem throughout_of_keeps {I : Record → EditDistEpochRecordFilter → Prop}
    (h : ∀ r f', f'.constants = f.constants → I r f') : Throughout I rs f := by
  induction rs generalizing f with
  | nil => trivial
  | cons r rs ih =>
    refine ⟨h r f rfl, ?_⟩
    have hkeeps := filter_keeps r f
    cases hf : filter r f with
    | error x f' => trivial
    | ok out f' =>
      rw [wp, hf] at hkeeps
      exact ih fun r f'' hconstants => h r f'' (hconstants.trans hkeeps)

theorem mul_add_lt {a b m n : ℕ} (ha : a < m) (hb : b < n) : a * n + b < m * n := by
  calc a * n + b < a * n + n := Nat.add_lt_add_left hb _
    _ = (a + 1) * n := (Nat.succ_mul a n).symm
    _ ≤ m * n := Nat.mul_le_mul_right n ha

theorem safeTable {d : EditDistPeriodicityDetector} (hsize : d.historyBufferSize ≠ 0)
    (hlength : d.dp.length = d.historyBufferSize * d.historyBufferSize * d.historyBufferSize) :
    SafeTable d := by
  refine ⟨hsize, fun ii jj mm => ?_⟩
  have hpos := Nat.pos_of_ne_zero hsize
  have hrow := mul_add_lt (Nat.mod_lt ii hpos) (Nat.mod_lt jj hpos)
  have hcell := mul_add_lt hrow (Nat.mod_lt mm hpos)
  rw [Nat.add_mul] at hcell
  rw [EditDistPeriodicityDetector.didx, hlength]
  exact hcell

theorem constants_ofParameters (hf : ofParameters p = .ok f) : f.constants =
    ((p.historyBufferSize.toNat, p.historyBufferSize.toNat,
      p.historyBufferSize.toNat * p.historyBufferSize.toNat * p.historyBufferSize.toNat),
      p.stablePeriodHysteresis, p.unstablePeriodHysteresis) := by
  rw [ofParameters, make] at hf
  cases hd : EditDistPeriodicityDetector.make p.historyBufferSize with
  | error x =>
    rw [hd] at hf
    cases hf
  | ok d =>
    rw [hd] at hf
    cases hf
    have hsize := (EditDistPeriodicityDetector.make_eq_ok hd).1
    rw [EditDistPeriodicityDetector.make] at hd
    split_ifs at hd
    cases hd
    simp [constants, EditDistPeriodicityDetector.shape, CircularBuffer.make, Int.toNat_mul, hsize,
      Int.mul_nonneg]

/-- The cube of a small size is an `int`. -/
theorem tableCells_of_small {size : ℤ} (h : size.natAbs ≤ 1290) :
    tableCells size = size * size * size := by
  have hcube : (size * size * size).natAbs ≤ 1290 * 1290 * 1290 := by
    rw [Int.natAbs_mul, Int.natAbs_mul]
    exact Nat.mul_le_mul (Nat.mul_le_mul h h) h
  unfold tableCells toInt32 toUnsigned intMax
  generalize size * size * size = cells at hcube ⊢
  split_ifs <;> omega

/-- A name acts as its parameters say while the whole parts of the factors decide alike. -/
theorem actsAsGiven_of_alike (hp : parseName stoi stod name = .ok p) (h : Alike p rs) :
    ActsAsGiven stoi stod name p rs where
  same := by
    rw [ofName_eq hp]
    cases hf : ofParameters p with
    | error x => rfl
    | ok f => exact congrArg Except.ok (outputs_truncated (h.decides f hf))
  allocated := by
    intro hcells
    obtain hsmall | hneg := h.size
    · exact tableCells_of_small hsmall
    · omega
  inTable := by
    intro g hg
    rw [ofName_eq hp] at hg
    cases hf : ofParameters p with
    | error x =>
      rw [hf] at hg
      cases hg
    | ok f =>
      rw [hf] at hg
      cases hg
      have hconstants : f.edpd.shape = _ := congrArg Prod.fst (constants_ofParameters hf)
      refine throughout_of_keeps fun r f' hkeeps _ hroom => ?_
      have hshape : f'.edpd.shape = f.edpd.shape := congrArg Prod.fst hkeeps
      obtain ⟨hmax, hrest⟩ := Prod.mk.inj (hshape.trans hconstants)
      obtain ⟨hsize, hlength⟩ := Prod.mk.inj hrest
      refine safeTable (by omega) ?_
      rw [hlength, hsize]

theorem decidesAlike_of_whole (h : f.truncated = f) : f.DecidesAlike := by
  unfold DecidesAlike
  rw [← trackUnstable_truncated, ← trackPeriod_truncated, h]
  split_ifs <;> exact Iff.rfl

theorem alike_of_whole {stable unstable : ℤ} (hstable : p.stablePeriodHysteresis = stable)
    (hunstable : p.unstablePeriodHysteresis = unstable) (hsize : p.historyBufferSize.natAbs ≤ 1290)
    (hstable_le : stable.natAbs ≤ intMax) (hunstable_le : unstable.natAbs ≤ intMax) :
    Alike p rs := by
  have htruncate : ∀ i : ℤ, truncate i = i := fun i => Int.tdiv_one i
  refine ⟨.inl hsize, ?_, ?_, fun f hf => throughout_of_keeps fun r f' hkeeps _ d hd => ?_⟩
  · rw [hstable, htruncate]
    exact hstable_le
  · rw [hunstable, htruncate]
    exact hunstable_le
  · have hconstants := hkeeps.trans (constants_ofParameters hf)
    have hfactors := congrArg Prod.snd hconstants
    have hs : f'.stablePeriodHysteresis = stable := (congrArg Prod.fst hfactors).trans hstable
    have hu : f'.unstablePeriodHysteresis = unstable := (congrArg Prod.snd hfactors).trans hunstable
    refine decidesAlike_of_whole ?_
    simp [truncated, hs, hu, htruncate]

end

/-! ### Names with decimals -/

/-- The value of some decimal digits. -/
def digitsValue (cs : List Char) : Option ℕ :=
  if cs ≠ [] ∧ cs.all Char.isDigit then some (cs.foldl (fun n c => 10 * n + (c.toNat - 48)) 0)
  else none

/-- `std::stoi` of decimal digits. -/
def wholeNumber (s : String) : Option ℤ := (digitsValue s.toList).map fun n => n

/-- `std::stod` of decimal digits, with or without a fraction. -/
def decimalNumber (s : String) : Option ℚ :=
  match s.toList.splitOn '.' with
  | [whole] => (digitsValue whole).map fun n => n
  | [whole, fraction] => do
    let n ← digitsValue whole
    let m ← digitsValue fraction
    some (n + m / 10 ^ fraction.length)
  | _ => none

/-- Three entries into a region that repeats itself. -/
def threeEntries : List Record := List.replicate 3 ⟨0, 1, .regionEntry, 0x1⟩

/-- The filter of the name marks an epoch after one repetition, that of the parameters never has
one and a half. -/
theorem fraction_not_as_given :
    parseName wholeNumber decimalNumber "edit_distance,3,1,1,1.5,1.5" =
        .ok ⟨3, 1, 1, 3 / 2, 3 / 2⟩ ∧
      ¬ ActsAsGiven wholeNumber decimalNumber "edit_distance,3,1,1,1.5,1.5"
        ⟨3, 1, 1, 3 / 2, 3 / 2⟩ threeEntries := by
  refine ⟨by decide +kernel, fun h => ?_⟩
  exact absurd h.same (by decide +kernel)

theorem whole_as_given :
    ActsAsGiven wholeNumber decimalNumber "edit_distance,3,1,1,1,2" ⟨3, 1, 1, 1, 2⟩
      threeEntries := by
  refine actsAsGiven_of_alike (by decide +kernel) ?_
  exact alike_of_whole rfl rfl (by decide) (by decide) (by decide)

end EditDistEpochRecordFilter

end Geopm
