import Geopm.Lib.Fallible
import Geopm.Pio.Rollover

/-!
# The energy of the powercap driver

The energy of a package is a counter in a file, which starts again at zero after a fixed range.  The
driver makes a parser with a `RolloverGenerator` of its own for each signal that is pushed, and for each
signal that is read.

* `PowercapSysfsDriver`, `Parser` : the driver, and what `signal_parse` returns;
* `EnergyGroup` : the members of `SysfsIOGroup` for signals, with `pushSignal`, `readBatch`, `sample`
  and `readSignal`;
* `Call`, `readings` : the calls, and the values that they return of which count of a package;
* `Right` : the values are the counts up to an offset for each package, and never decrease;
* `Tracked` : a pushed signal adds the turns that show between batches; `value_of_mem_readings` : what
  every value is;
* `right_readings_iff` : every run, in terms of the turns that are not added.
-/

namespace Geopm.Pio.Powercap

open List

/-! ### The driver -/

/-- The names of the energy of a package: the name of the signal, and its alias. -/
inductive EnergyName where
  | cpuEnergyConsumed
  | cpuEnergy
deriving DecidableEq

def EnergyName.text : EnergyName → String
  | .cpuEnergyConsumed => "POWERCAP::CPU_ENERGY_CONSUMED"
  | .cpuEnergy => "CPU_ENERGY"

/-- The members of `PowercapSysfsDriver`, with the range that the constructor has read. -/
structure PowercapSysfsDriver where
  numPackage : ℕ
  scalingFactor : ℚ
  range : ℕ
  scalingFactor_pos : 0 < scalingFactor
  range_pos : 0 < range

/-- `m_rollover_factor`. -/
def PowercapSysfsDriver.rolloverFactor (d : PowercapSysfsDriver) : ℚ := d.scalingFactor * d.range

/-- What `signal_parse` returns for an energy. -/
structure Parser where
  scalingFactor : ℚ
  rolloverPtr : RolloverGenerator ℚ

def signalParse (d : PowercapSysfsDriver) : Parser :=
  ⟨d.scalingFactor, ⟨0, d.rolloverFactor, 0⟩⟩

/-- Parse what `std::stoull` makes of a text; `none` is NaN. -/
def Parser.parse (p : Parser) : Option ℕ → Option ℚ × Parser
  | none => (none, p)
  | some content =>
    let (result, rolloverPtr) := p.rolloverPtr.update (content * p.scalingFactor)
    (some result, { p with rolloverPtr })

/-! ### The group -/

/-- `m_pushed_info_s`, for a signal. -/
structure PushedEnergy where
  name : EnergyName
  domainIdx : ℕ
  value : Option ℚ := none
  parse : Parser

/-- A batch reads the file of a pushed signal. -/
def PushedEnergy.read (contents : ℕ → Option ℕ) (info : PushedEnergy) : PushedEnergy :=
  let (value, parse) := info.parse.parse (contents info.domainIdx)
  { info with value, parse }

/-- The members of `SysfsIOGroup` that the signals use. -/
structure EnergyGroup where
  pushedInfoSignal : List PushedEnergy := []
  doBatchRead : Bool := false
  isBatchRead : Bool := false

/-- `check_request`: only the packages have a file. -/
def checkRequest (d : PowercapSysfsDriver) (methodName : String) (name : EnergyName)
    (domainIdx : ℕ) : Except Exception Unit :=
  if domainIdx < d.numPackage then .ok ()
  else .error ⟨"SysfsIOGroup::" ++ methodName ++ "(): \"" ++ name.text ++ "\"not valid for ", [],
    .invalid⟩

namespace EnergyGroup

variable (d : PowercapSysfsDriver) (g : EnergyGroup)

def pushSignal (name : EnergyName) (domainIdx : ℕ) : Except Exception (ℕ × EnergyGroup) :=
  if g.isBatchRead then
    .error ⟨"SysfsIOGroup::push_signal(): cannot push signal after call to read_batch().", [], .invalid⟩
  else do
    checkRequest d "push_driver_signal" name domainIdx
    match g.pushedInfoSignal.findIdx? fun info => info.name = name ∧ info.domainIdx = domainIdx with
    | some signalIdx => pure (signalIdx, g)
    | none =>
      let info : PushedEnergy := { name, domainIdx, parse := signalParse d }
      pure (g.pushedInfoSignal.length,
        { g with pushedInfoSignal := g.pushedInfoSignal ++ [info], doBatchRead := true })

/-- `read_batch`, where all files can be read. -/
def readBatch (contents : ℕ → Option ℕ) : EnergyGroup :=
  { g with
    isBatchRead := true
    pushedInfoSignal :=
      if g.doBatchRead then g.pushedInfoSignal.map (PushedEnergy.read contents)
      else g.pushedInfoSignal }

/-- `sample`. -/
def sample (batchIdx : ℕ) : Except Exception (Option ℚ) :=
  match g.pushedInfoSignal[batchIdx]? with
  | none => .error ⟨"SysfsIOGroup::sample(): batch_idx out of range.", [], .invalid⟩
  | some info =>
    if !g.isBatchRead then
      .error ⟨"SysfsIOGroup::sample(): signal has not been read.", [], .invalid⟩
    else .ok info.value

/-- `read_signal`, with what the file holds.  It uses no member but the driver. -/
def readSignal (name : EnergyName) (domainIdx : ℕ) (content : Option ℕ) :
    Except Exception (Option ℚ) := do
  checkRequest d "read_signal" name domainIdx
  pure ((signalParse d).parse content).1

end EnergyGroup

/-! ### Runs -/

/-- A call, with the counts of the packages when it reads them. -/
inductive Call where
  | pushSignal (name : EnergyName) (domainIdx : ℕ)
  | readBatch (counts : ℕ → ℕ)
  | sample (batchIdx : ℕ)
  | readSignal (name : EnergyName) (domainIdx count : ℕ)

/-- A value that is returned for a package, the count when it was read, and how many turns of the
counter until then have not shown between two batches. -/
structure Reading where
  package : ℕ
  count : ℕ
  hidden : ℤ
  value : Option ℚ

/-- The group, with the counts that the batches have read, the last one first. -/
structure World where
  group : EnergyGroup := {}
  batches : List (ℕ → ℕ) := []

/-- How many turns show as a decrease between two batches, the last one first. -/
def shown (range : ℕ) : List ℕ → ℕ
  | count :: before :: counts =>
    (if count % range < before % range then 1 else 0) + shown range (before :: counts)
  | _ => 0

section Run

variable (d : PowercapSysfsDriver)

/-- What a file holds. -/
def content (count : ℕ) : Option ℕ := some (count % d.range)

/-- The turns that a batch has not shown. -/
def hiddenTurns (counts : List ℕ) (count : ℕ) : ℤ := (count / d.range : ℕ) - shown d.range counts

/-- A call, and what it returns of an energy. -/
def World.call (w : World) : Call → World × Option Reading
  | .pushSignal name domainIdx =>
    match w.group.pushSignal d name domainIdx with
    | .ok (_, group) => ({ w with group }, none)
    | .error _ => (w, none)
  | .readBatch counts =>
    (⟨w.group.readBatch fun idx => content d (counts idx), counts :: w.batches⟩, none)
  | .sample batchIdx =>
    match w.group.sample batchIdx, w.group.pushedInfoSignal[batchIdx]?, w.batches with
    | .ok value, some info, counts :: _ =>
      (w, some ⟨info.domainIdx, counts info.domainIdx,
        hiddenTurns d (w.batches.map (· info.domainIdx)) (counts info.domainIdx), value⟩)
    | _, _, _ => (w, none)
  | .readSignal name domainIdx count =>
    match EnergyGroup.readSignal d name domainIdx (content d count) with
    | .ok value => (w, some ⟨domainIdx, count, hiddenTurns d [] count, value⟩)
    | .error _ => (w, none)

/-- The values that the calls return. -/
def readings : World → List Call → List Reading
  | _, [] => []
  | w, c :: calls => (w.call d c).2.toList ++ readings (w.call d c).1 calls

/-- The counts of a package when it is observed. -/
def observations (package : ℕ) : List Call → List ℕ
  | [] => []
  | .readBatch counts :: calls => counts package :: observations package calls
  | .readSignal _ domainIdx count :: calls =>
    if domainIdx = package then count :: observations package calls
    else observations package calls
  | _ :: calls => observations package calls

/-- The counters never decrease, and advance by less than a range between two observations. -/
def Observed (calls : List Call) : Prop :=
  ∀ package, (observations package calls).IsChain (WithinTurn d.range)

/-- The values are the counts up to an offset for each package; they never decrease, and those of one
count are the same. -/
structure Right (values : List Reading) : Prop where
  offset : ∃ offset : ℕ → ℚ, ∀ r ∈ values,
    r.value = some (r.count * d.scalingFactor - offset r.package)
  monotone : values.Pairwise fun r r' => r.package = r'.package →
    ∀ v ∈ r.value, ∀ v' ∈ r'.value, v ≤ v'
  agree : ∀ r ∈ values, ∀ r' ∈ values, r.package = r'.package → r.count = r'.count →
    r.value = r'.value

/-- The turns that are not added are the same for all values of a package, and no value is of an
older count than one before it. -/
def SameTurns (values : List Reading) : Prop :=
  (∀ r ∈ values, ∀ r' ∈ values, r.package = r'.package → r.hidden = r'.hidden) ∧
    values.Pairwise fun r r' => r.package = r'.package → r.count ≤ r'.count

end Run

/-! ### What a value is -/

section Values

variable {d : PowercapSysfsDriver} {w : World} {g : EnergyGroup} {info : PushedEnergy}
  {counts : List ℕ} {count : ℕ}

/-- A count, without some turns. -/
def energy (d : PowercapSysfsDriver) (count : ℕ) (turns : ℤ) : ℚ :=
  (count - d.range * turns) * d.scalingFactor

/-- A signal adds the turns that show between the batches. -/
structure Tracked (d : PowercapSysfsDriver) (counts : List ℕ) (p : Parser) : Prop where
  scalingFactor : p.scalingFactor = d.scalingFactor
  factor : p.rolloverPtr.rolloverFactor = d.rolloverFactor
  last : p.rolloverPtr.lastValue = (counts.headD 0 % d.range : ℕ) * d.scalingFactor
  total : p.rolloverPtr.rolloverTotal = shown d.range counts * d.rolloverFactor

theorem tracked_signalParse : Tracked d [] (signalParse d) := by
  refine ⟨rfl, rfl, ?_, ?_⟩ <;> simp [signalParse, shown]

/-- What is added after one count more. -/
theorem shown_cons (count : ℕ) (counts : List ℕ) (range : ℕ) :
    shown range (count :: counts) =
      (if count % range < counts.headD 0 % range then 1 else 0) + shown range counts := by
  cases counts with
  | nil => simp [shown]
  | cons before counts => rfl

theorem Tracked.parse {p : Parser} (h : Tracked d counts p) (count : ℕ) :
    (p.parse (content d count)).1 =
        some (energy d count (hiddenTurns d (count :: counts) count)) ∧
      Tracked d (count :: counts) (p.parse (content d count)).2 := by
  have hpos := d.scalingFactor_pos
  have hdecrease : p.rolloverPtr.lastValue > ((count % d.range : ℕ) : ℚ) * p.scalingFactor ↔
      count % d.range < counts.headD 0 % d.range := by
    rw [h.last, h.scalingFactor, gt_iff_lt, mul_lt_mul_iff_left₀ hpos, Nat.cast_lt]
  have htotal : (if p.rolloverPtr.lastValue > ((count % d.range : ℕ) : ℚ) * p.scalingFactor then
      p.rolloverPtr.rolloverTotal + p.rolloverPtr.rolloverFactor else p.rolloverPtr.rolloverTotal) =
      shown d.range (count :: counts) * d.rolloverFactor := by
    rw [shown_cons, h.total, h.factor]
    simp only [hdecrease]
    split_ifs <;> push_cast <;> ring
  refine ⟨congrArg some ?_, h.scalingFactor, h.factor, ?_, htotal⟩
  · have hcount : ((count % d.range : ℕ) : ℚ) + d.range * (count / d.range : ℕ) = count := by
      exact_mod_cast Nat.mod_add_div count d.range
    change ((count % d.range : ℕ) : ℚ) * p.scalingFactor + (if _ then _ else _) = _
    rw [htotal, h.scalingFactor, energy, hiddenTurns, PowercapSysfsDriver.rolloverFactor,
      Int.cast_sub, Int.cast_natCast, Int.cast_natCast]
    linear_combination d.scalingFactor * hcount
  · exact congrArg _ h.scalingFactor

/-- The signals that are pushed are tracked, and hold the value of the last batch. -/
structure Holds (d : PowercapSysfsDriver) (w : World) : Prop where
  isBatchRead : w.group.isBatchRead = true ↔ w.batches ≠ []
  doBatchRead : w.group.pushedInfoSignal ≠ [] → w.group.doBatchRead = true
  tracked : ∀ info ∈ w.group.pushedInfoSignal,
    Tracked d (w.batches.map (· info.domainIdx)) info.parse
  value : ∀ info ∈ w.group.pushedInfoSignal, ∀ counts ∈ w.batches.head?,
    info.value = some (energy d (counts info.domainIdx)
      (hiddenTurns d (w.batches.map (· info.domainIdx)) (counts info.domainIdx)))

theorem holds_start : Holds d {} where
  isBatchRead := by simp
  doBatchRead := by simp
  tracked := nofun
  value := nofun

/-- A signal is pushed before the first batch. -/
theorem Holds.pushSignal (h : Holds d w) {name : EnergyName} {domainIdx idx : ℕ}
    (hpush : w.group.pushSignal d name domainIdx = .ok (idx, g)) : Holds d { w with group := g } := by
  unfold EnergyGroup.pushSignal at hpush
  split_ifs at hpush with hread
  obtain ⟨-, -, hpush⟩ := Except.exists_of_bind_eq_ok hpush
  have hbatches : w.batches = [] := by
    by_contra hne
    exact hread (h.isBatchRead.mpr hne)
  split at hpush
  · cases hpush
    exact h
  · cases hpush
    refine ⟨h.isBatchRead, fun _ => rfl, fun info hinfo => ?_, fun info _ counts hcounts => ?_⟩
    · obtain hinfo | hinfo := mem_append.mp hinfo
      · exact h.tracked info hinfo
      · rw [mem_singleton.mp hinfo, hbatches]
        exact tracked_signalParse
    · rw [hbatches] at hcounts
      cases hcounts

theorem Holds.readBatch (h : Holds d w) (counts : ℕ → ℕ) :
    Holds d ⟨w.group.readBatch fun idx => content d (counts idx), counts :: w.batches⟩ := by
  have hinfos : (w.group.readBatch fun idx => content d (counts idx)).pushedInfoSignal =
      w.group.pushedInfoSignal.map (PushedEnergy.read fun idx => content d (counts idx)) := by
    by_cases hinfos : w.group.pushedInfoSignal = []
    · simp [EnergyGroup.readBatch, hinfos]
    · simp [EnergyGroup.readBatch, h.doBatchRead hinfos]
  refine ⟨by simp [EnergyGroup.readBatch], ?_, ?_, ?_⟩
  · rw [hinfos, ne_eq, map_eq_nil_iff]
    exact h.doBatchRead
  · rw [hinfos]
    rintro info' hinfo'
    obtain ⟨info, hinfo, rfl⟩ := mem_map.mp hinfo'
    exact ((h.tracked info hinfo).parse (counts info.domainIdx)).2
  · rw [hinfos]
    rintro info' hinfo' counts' ⟨⟩
    obtain ⟨info, hinfo, rfl⟩ := mem_map.mp hinfo'
    exact ((h.tracked info hinfo).parse (counts info.domainIdx)).1

/-- **What a call returns** is the count without the hidden turns. -/
theorem Holds.call (h : Holds d w) (c : Call) :
    Holds d (w.call d c).1 ∧
      ∀ r ∈ (w.call d c).2, r.value = some (energy d r.count r.hidden) := by
  cases c with
  | pushSignal name domainIdx =>
    rw [World.call]
    split
    · next hpush => exact ⟨h.pushSignal hpush, nofun⟩
    · exact ⟨h, nofun⟩
  | readBatch counts => exact ⟨h.readBatch counts, nofun⟩
  | sample batchIdx =>
    rw [World.call]
    split
    · next value info counts batches hsample hinfo hbatches =>
      refine ⟨h, ?_⟩
      rintro r ⟨⟩
      have hvalue : value = info.value := by
        rw [EnergyGroup.sample, hinfo] at hsample
        dsimp only at hsample
        split_ifs at hsample
        exact (Except.ok.inj hsample).symm
      rw [hvalue]
      exact h.value info (mem_of_getElem? hinfo) counts (by rw [hbatches]; rfl)
    · exact ⟨h, nofun⟩
  | readSignal name domainIdx count =>
    rw [World.call]
    split
    · next value hread =>
      refine ⟨h, ?_⟩
      rintro r ⟨⟩
      obtain ⟨-, -, hvalue⟩ := Except.exists_of_bind_eq_ok hread
      rw [← Except.ok.inj hvalue, (tracked_signalParse.parse count).1]
      rfl
    · exact ⟨h, nofun⟩

/-- **What every value is** : the count without the hidden turns. -/
theorem value_of_mem_readings (h : Holds d w) {calls : List Call} {r : Reading}
    (hr : r ∈ readings d w calls) : r.value = some (energy d r.count r.hidden) := by
  induction calls generalizing w with
  | nil => cases hr
  | cons c calls ih =>
    obtain ⟨hnext, hvalue⟩ := h.call c
    rw [readings] at hr
    obtain hr | hr := mem_append.mp hr
    · exact hvalue r (Option.mem_toList.mp hr)
    · exact ih hnext hr

end Values

/-! ### Every run -/

section Runs

variable {d : PowercapSysfsDriver} {values : List Reading}

/-- Values that are the counts without the hidden turns. -/
theorem right_iff_sameTurns
    (h : ∀ r ∈ values, r.value = some (energy d r.count r.hidden)) :
    Right d values ↔ SameTurns values := by
  have hpos := d.scalingFactor_pos
  have hrange : (0 : ℚ) < d.range := Nat.cast_pos.mpr d.range_pos
  constructor
  · rintro ⟨⟨offset, hoffset⟩, hmonotone, -⟩
    have hsame : ∀ r ∈ values, ∀ r' ∈ values, r.package = r'.package → r.hidden = r'.hidden := by
      have hturns : ∀ r ∈ values, offset r.package = d.range * d.scalingFactor * r.hidden := by
        intro r hr
        have hvalue := Option.some.inj ((h r hr).symm.trans (hoffset r hr))
        rw [energy] at hvalue
        linear_combination hvalue
      intro r hr r' hr' hpackage
      have hequal := (hturns r hr).symm.trans (hpackage ▸ hturns r' hr')
      exact Int.cast_injective (mul_left_cancel₀ (mul_pos hrange hpos).ne' hequal)
    refine ⟨hsame, hmonotone.imp_of_mem fun {r r'} hr hr' hle hpackage => ?_⟩
    have hvalue := hle hpackage _ (h r hr) _ (h r' hr')
    rw [energy, energy, hsame r hr r' hr' hpackage, mul_le_mul_iff_left₀ hpos] at hvalue
    exact_mod_cast sub_le_sub_iff_right _ |>.mp hvalue
  · rintro ⟨hsame, horder⟩
    have hequal : ∀ r ∈ values, ∀ r' ∈ values, r.package = r'.package → r.count ≤ r'.count →
        energy d r.count r.hidden ≤ energy d r'.count r'.hidden := by
      intro r hr r' hr' hpackage hle
      rw [energy, energy, hsame r hr r' hr' hpackage, mul_le_mul_iff_left₀ hpos,
        sub_le_sub_iff_right]
      exact_mod_cast hle
    refine ⟨⟨fun package => ((values.find? fun r => r.package = package).map fun r =>
      d.range * d.scalingFactor * (r.hidden : ℚ)).getD 0, fun r hr => ?_⟩, ?_, ?_⟩
    · cases hfind : values.find? fun r' => r'.package = r.package with
      | none => exact absurd (find?_eq_none.mp hfind r hr) (by simp)
      | some r' =>
        have hpackage : r'.package = r.package := by simpa using find?_some hfind
        rw [h r hr, energy, hsame r hr r' (mem_of_find?_eq_some hfind) hpackage.symm]
        simp only [hfind, Option.map_some, Option.getD_some, Option.some.injEq]
        ring
    · refine horder.imp_of_mem fun {r r'} hr hr' hle hpackage v hv v' hv' => ?_
      rw [h r hr] at hv
      rw [h r' hr'] at hv'
      cases hv
      cases hv'
      exact hequal r hr r' hr' hpackage (hle hpackage)
    · intro r hr r' hr' hpackage hcount
      rw [h r hr, h r' hr', hcount, hsame r hr r' hr' hpackage]

/-- **The values of a run are right** exactly when the turns that are not added are the same for all
values of a package, and no sample follows the read of a greater count. -/
theorem right_readings_iff (d : PowercapSysfsDriver) (calls : List Call) :
    Right d (readings d {} calls) ↔ SameTurns (readings d {} calls) :=
  right_iff_sameTurns fun _ => value_of_mem_readings holds_start

/-- One package, with a range of 256. -/
def onePackage : PowercapSysfsDriver := ⟨1, 1, 256, by decide, by decide⟩

/-- Two batches, between which the counter turns, and a read. -/
def turnAndRead : List Call :=
  [.pushSignal .cpuEnergy 0, .readBatch fun _ => 250, .sample 0, .readBatch fun _ => 260, .sample 0,
    .readSignal .cpuEnergy 0 261]

/-- The read does not add the turn. -/
theorem not_right_turnAndRead :
    ¬ ∀ calls, Observed onePackage calls → Right onePackage (readings onePackage {} calls) := by
  intro h
  have hobserved : Observed onePackage turnAndRead := by
    intro package
    by_cases hpackage : 0 = package
    · subst hpackage
      decide
    · simp [turnAndRead, observations, hpackage, WithinTurn, onePackage]
  have hright := (right_iff_sameTurns fun _ => value_of_mem_readings holds_start).mp
    (h turnAndRead hobserved)
  have hreadings : (readings onePackage {} turnAndRead).map (fun r => (r.package, r.hidden)) =
      [(0, 0), (0, 0), (0, 1)] := by
    decide +kernel
  have hmem : ∀ hidden, (0, hidden) ∈ [((0 : ℕ), (0 : ℤ)), (0, 0), (0, 1)] →
      ∃ r ∈ readings onePackage {} turnAndRead, r.package = 0 ∧ r.hidden = hidden := by
    intro hidden hin
    obtain ⟨r, hr, heq⟩ := mem_map.mp (hreadings ▸ hin)
    exact ⟨r, hr, (Prod.mk.inj heq).1, (Prod.mk.inj heq).2⟩
  obtain ⟨r, hr, hpackage, hhidden⟩ := hmem 0 (by decide)
  obtain ⟨r', hr', hpackage', hhidden'⟩ := hmem 1 (by decide)
  have hsame := hright.1 r hr r' hr' (hpackage.trans hpackage'.symm)
  rw [hhidden, hhidden'] at hsame
  exact absurd hsame (by decide)

end Runs

end Geopm.Pio.Powercap
