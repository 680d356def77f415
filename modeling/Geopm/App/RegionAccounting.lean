import Geopm.App.SampleAggregator
import Geopm.Lib.Spans

/-!
# The regions share the application

* `Feed` : what the updates read for one signal;
* `Feed.value` : the signal at an update, `Feed.held` : the hash or the number of epochs that counts
  at an update;
* `SumSignal.Tracks` : what the accumulators hold after some updates, `Tracks.advance` : the step;
* `accounts_of_prepared` : the totals of the regions sum up to that of the application, and the
  accumulators of the last visit, epoch and period hold the change over it.
-/

namespace Geopm

open Option
open Finset

/-- What the updates read for one signal. -/
structure Feed where
  sample : ℕ → Sample
  hash : ℕ → ℕ
  epochCount : ℕ → ℤ
  period : ℕ → ℤ

variable {f : Feed} {n k : ℕ} {x : ℚ}

namespace Feed

/-- The last number among the samples up to an update. -/
def lastSample (f : Feed) : ℕ → Sample
  | 0 => f.sample 0
  | k + 1 => (f.sample (k + 1)).or (f.lastSample k)

/-- The first number among some samples. -/
def firstSample (f : Feed) : ℕ → Sample
  | 0 => none
  | n + 1 => (f.firstSample n).or (f.sample n)

/-- The signal at an update, among the first `n`: its sample, or the last number before it, or when
there is none the first one after it. -/
def value (f : Feed) (n k : ℕ) : ℚ := (f.lastSample k).getD ((f.firstSample n).getD 0)

/-- An update whose sample is NaN is not seen, but for the first one. -/
def held {κ : Type} (f : Feed) (g : ℕ → κ) : ℕ → κ
  | 0 => g 0
  | k + 1 => if (f.sample (k + 1)).isNone then f.held g k else g (k + 1)

/-- The hashes that have been seen. -/
def seen (f : Feed) (n : ℕ) : Finset ℕ := (Finset.range n).image f.hash

variable {κ : Type} {g : ℕ → κ}

theorem lastSample_succ_of_none (h : f.sample (k + 1) = none) :
    f.lastSample (k + 1) = f.lastSample k := by
  rw [lastSample, h, none_or]

theorem lastSample_succ_of_some (h : f.sample (k + 1) = some x) :
    f.lastSample (k + 1) = some x := by
  rw [lastSample, h, some_or]

theorem held_succ_of_none (h : f.sample (k + 1) = none) : f.held g (k + 1) = f.held g k := by
  rw [held, h]
  rfl

theorem held_succ_of_some (h : f.sample (k + 1) = some x) : f.held g (k + 1) = g (k + 1) := by
  rw [held, h]
  rfl

theorem held_mem_seen (hk : k < n) : f.held f.hash k ∈ f.seen n := by
  induction k with
  | zero => exact mem_image_of_mem _ (mem_range.mpr hk)
  | succ k ih =>
    rw [held]
    split_ifs
    · exact ih (by omega)
    · exact mem_image_of_mem _ (mem_range.mpr hk)

/-- Before the first number there is none. -/
theorem firstSample_of_lastSample_none (h : f.lastSample k = none) :
    f.firstSample (k + 1) = none := by
  induction k with
  | zero =>
    rw [firstSample, firstSample, none_or]
    exact h
  | succ k ih =>
    rw [lastSample, or_eq_none_iff] at h
    rw [firstSample, ih h.2, none_or]
    exact h.1

theorem firstSample_of_le {m : ℕ} (h : f.firstSample m = some x) (hm : m ≤ n) :
    f.firstSample n = some x := by
  induction n, hm using Nat.le_induction with
  | base => exact h
  | succ n _ ih => rw [firstSample, ih, some_or]

theorem value_succ_of_some (h : f.sample (k + 1) = some x) (hk : k + 1 < n) :
    f.value n (k + 1) - f.value n k = (f.lastSample k).elim 0 (x - ·) := by
  rw [value, value, lastSample_succ_of_some h]
  cases hlast : f.lastSample k with
  | some y => rfl
  | none =>
    have hfirst : f.firstSample (k + 2) = some x := by
      rw [firstSample, firstSample_of_lastSample_none hlast, none_or, h]
    rw [firstSample_of_le hfirst (by omega)]
    exact sub_self x

theorem value_succ_of_none (h : f.sample (k + 1) = none) : f.value n (k + 1) = f.value n k := by
  rw [value, value, lastSample_succ_of_none h]

end Feed

/-! ### The accumulators of the regions -/

namespace SumSignal

/-- The accumulator of a region; one that has not been observed holds nothing. -/
def regionOf (signal : SumSignal) (h : ℕ) : SumAccumulator := (signal.regionAccum h).getD {}

/-- The iterator points to an accumulator. -/
def Pointed (signal : SumSignal) : Prop := (signal.regionAccum signal.regionAccumIt).isSome

variable {signal : SumSignal} {h hash : ℕ} {call : SumAccumulator → SumAccumulator}

theorem regionOf_onRegion (hp : signal.Pointed) : (signal.onRegion call).regionOf h =
    if h = signal.regionAccumIt then call (signal.regionOf h) else signal.regionOf h := by
  unfold regionOf onRegion
  dsimp only
  split_ifs with hh
  · subst hh
    obtain ⟨a, ha⟩ := isSome_iff_exists.mp hp
    rw [Function.update_self, ha]
    rfl
  · rw [Function.update_of_ne hh]

theorem Pointed.onRegion (hp : signal.Pointed) : (signal.onRegion call).Pointed := by
  unfold Pointed SumSignal.onRegion at *
  dsimp only
  rw [Function.update_self, isSome_map]
  exact hp

@[simp] theorem regionOf_emplaceHash :
    (signal.emplaceHash hash).regionOf h = signal.regionOf h := by
  unfold regionOf emplaceHash
  dsimp only
  split_ifs with hnone
  · by_cases hh : h = hash
    · subst hh
      rw [Function.update_self, isNone_iff_eq_none.mp hnone]
      rfl
    · rw [Function.update_of_ne hh]
  · rfl

theorem pointed_emplaceHash : (signal.emplaceHash hash).Pointed := by
  unfold Pointed emplaceHash
  dsimp only
  split_ifs with hnone
  · rw [Function.update_self]
    rfl
  · rw [isSome_iff_ne_none]
    exact fun h => hnone (isNone_iff_eq_none.mpr h)

@[simp] theorem regionHashLast_onRegion :
    (signal.onRegion call).regionHashLast = signal.regionHashLast := rfl

@[simp] theorem regionAccumIt_onRegion :
    (signal.onRegion call).regionAccumIt = signal.regionAccumIt := rfl

/-- The part of an update that follows the hash. -/
def updateRegions (signal : SumSignal) (hash : ℕ) : SumSignal :=
  let signal := signal.updateHashExit hash
  let signal := if signal.regionHashLast ≠ hash then signal.emplaceHash hash else signal
  signal.updateHashEnter hash

theorem updateRegions_of_eq (hh : signal.regionHashLast = hash) :
    signal.updateRegions hash = signal := by
  have hsame : ¬ signal.regionHashLast ≠ hash := not_not.mpr hh
  unfold updateRegions updateHashExit updateHashEnter
  simp only [if_neg hsame]

theorem updateRegions_of_ne (hh : signal.regionHashLast ≠ hash) :
    signal.updateRegions hash =
      let left := if signal.regionHashLast ≠ regionHashUnmarked then signal.onRegion .exit
        else signal
      if hash ≠ regionHashUnmarked then (left.emplaceHash hash).onRegion .enter
      else left.emplaceHash hash := by
  have hleft : (if signal.regionHashLast ≠ regionHashUnmarked then signal.onRegion .exit
      else signal).regionHashLast = signal.regionHashLast := by
    split_ifs <;> rfl
  unfold updateRegions updateHashExit updateHashEnter
  simp only [if_pos hh, hleft]
  exact if_pos (hleft.trans_ne hh)

/-- The visit that ends is closed, and the one that begins is opened; the time outside of the marked
regions is neither. -/
theorem regionOf_updateRegions (hp : signal.Pointed)
    (hit : signal.regionAccumIt = signal.regionHashLast) :
    (signal.updateRegions hash).regionOf h =
      if signal.regionHashLast = hash then signal.regionOf h
      else if h = signal.regionHashLast ∧ h ≠ regionHashUnmarked then (signal.regionOf h).exit
      else if h = hash ∧ h ≠ regionHashUnmarked then (signal.regionOf h).enter
      else signal.regionOf h := by
  by_cases hh : signal.regionHashLast = hash
  · rw [updateRegions_of_eq hh, if_pos hh]
  · rw [updateRegions_of_ne hh, if_neg hh]
    have hleft : (if signal.regionHashLast ≠ regionHashUnmarked then signal.onRegion .exit
        else signal).regionOf h =
          if h = signal.regionHashLast ∧ h ≠ regionHashUnmarked then (signal.regionOf h).exit
          else signal.regionOf h := by
      split_ifs with hmarked hh hh
      · rw [regionOf_onRegion hp, hit, if_pos hh.1]
      · rw [regionOf_onRegion hp, hit, if_neg fun h' => hh ⟨h', h' ▸ hmarked⟩]
      · exact absurd (hh.1 ▸ hh.2) hmarked
      · rfl
    generalize (if signal.regionHashLast ≠ regionHashUnmarked then signal.onRegion .exit
      else signal) = left at hleft ⊢
    dsimp only
    have hright : (if hash ≠ regionHashUnmarked then (left.emplaceHash hash).onRegion .enter
        else left.emplaceHash hash).regionOf h =
          if h = hash ∧ h ≠ regionHashUnmarked then (left.regionOf h).enter
          else left.regionOf h := by
      split_ifs with hmarked hh' hh'
      · rw [regionOf_onRegion pointed_emplaceHash, regionOf_emplaceHash]
        exact if_pos hh'.1
      · rw [regionOf_onRegion pointed_emplaceHash, regionOf_emplaceHash]
        exact if_neg fun h' => hh' ⟨h', h' ▸ hmarked⟩
      · exact absurd (hh'.1 ▸ hh'.2) hmarked
      · exact regionOf_emplaceHash
    rw [hright, hleft]
    by_cases hlast : h = signal.regionHashLast
    · have hhash : ¬ (h = hash ∧ h ≠ regionHashUnmarked) := fun h' => hh (hlast ▸ h'.1)
      rw [if_neg hhash, if_neg hhash]
    · have hlast : ¬ (h = signal.regionHashLast ∧ h ≠ regionHashUnmarked) := fun h' => hlast h'.1
      rw [if_neg hlast, if_neg hlast]

theorem pointed_updateRegions (hp : signal.Pointed)
    (hit : signal.regionAccumIt = signal.regionHashLast) :
    (signal.updateRegions hash).Pointed ∧ (signal.updateRegions hash).regionAccumIt = hash := by
  by_cases hh : signal.regionHashLast = hash
  · rw [updateRegions_of_eq hh]
    exact ⟨hp, hit.trans hh⟩
  · rw [updateRegions_of_ne hh]
    dsimp only
    split_ifs
    · exact ⟨pointed_emplaceHash.onRegion, rfl⟩
    · exact ⟨pointed_emplaceHash.onRegion, rfl⟩
    · exact ⟨pointed_emplaceHash, rfl⟩
    · exact ⟨pointed_emplaceHash, rfl⟩

/-! ### One update -/

/-- The change since the last update. -/
def delta (signal : SumSignal) (x : ℚ) : ℚ := signal.sampleLast.elim 0 (x - ·)

section Advance

variable {period periodLast epochCount : ℤ}

theorem advance_some : signal.advance period periodLast (some x) hash epochCount =
    let signal := ((signal.addDelta (signal.delta x)).updateEpoch epochCount).updateRegions hash
    { (if period ≠ periodLast then signal.updatePeriod period else signal) with
      regionHashLast := hash
      sampleLast := some x } := by
  unfold advance delta
  cases signal.sampleLast <;> rfl

@[simp] theorem appAccum_updateRegions :
    (signal.updateRegions hash).appAccum = signal.appAccum := by
  unfold updateRegions updateHashExit updateHashEnter
  dsimp only
  split_ifs <;> rfl

@[simp] theorem epochAccum_updateRegions :
    (signal.updateRegions hash).epochAccum = signal.epochAccum := by
  unfold updateRegions updateHashExit updateHashEnter
  dsimp only
  split_ifs <;> rfl

@[simp] theorem epochCountLast_updateRegions :
    (signal.updateRegions hash).epochCountLast = signal.epochCountLast := by
  unfold updateRegions updateHashExit updateHashEnter
  dsimp only
  split_ifs <;> rfl

@[simp] theorem periodAccum_updateRegions :
    (signal.updateRegions hash).periodAccum = signal.periodAccum := by
  unfold updateRegions updateHashExit updateHashEnter
  dsimp only
  split_ifs <;> rfl

@[simp] theorem appAccum_updateEpoch :
    (signal.updateEpoch epochCount).appAccum = signal.appAccum := by
  unfold updateEpoch
  split_ifs <;> rfl

@[simp] theorem periodAccum_updateEpoch :
    (signal.updateEpoch epochCount).periodAccum = signal.periodAccum := by
  unfold updateEpoch
  split_ifs <;> rfl

@[simp] theorem epochCountLast_updateEpoch :
    (signal.updateEpoch epochCount).epochCountLast = epochCount := by
  unfold updateEpoch
  by_cases h : epochCount ≠ signal.epochCountLast
  · rw [if_pos h]
  · rw [if_neg h]
    exact (not_not.mp h).symm

@[simp] theorem epochAccum_updateEpoch : (signal.updateEpoch epochCount).epochAccum =
    if epochCount = signal.epochCountLast then signal.epochAccum
    else (if signal.epochCountLast ≠ 0 then signal.epochAccum.exit
      else signal.epochAccum).enter := by
  unfold updateEpoch
  split_ifs <;> first | rfl | contradiction

@[simp] theorem regionAccum_updateEpoch :
    (signal.updateEpoch epochCount).regionAccum = signal.regionAccum := by
  unfold updateEpoch
  split_ifs <;> rfl

@[simp] theorem regionAccumIt_updateEpoch :
    (signal.updateEpoch epochCount).regionAccumIt = signal.regionAccumIt := by
  unfold updateEpoch
  split_ifs <;> rfl

@[simp] theorem regionHashLast_updateEpoch :
    (signal.updateEpoch epochCount).regionHashLast = signal.regionHashLast := by
  unfold updateEpoch
  split_ifs <;> rfl

theorem appAccum_advance :
    (signal.advance period periodLast (some x) hash epochCount).appAccum =
      signal.appAccum.update (some (signal.delta x)) := by
  rw [advance_some]
  dsimp only
  split_ifs <;> simp [updatePeriod, addDelta, onRegion]

theorem epochCountLast_advance :
    (signal.advance period periodLast (some x) hash epochCount).epochCountLast = epochCount := by
  rw [advance_some]
  dsimp only
  split_ifs <;> simp [updatePeriod]

/-- The epoch before the update gets the change, and is closed when the number of epochs changes. -/
theorem epochAccum_advance :
    (signal.advance period periodLast (some x) hash epochCount).epochAccum =
      let accum := if signal.epochCountLast ≠ 0 then
          signal.epochAccum.update (some (signal.delta x))
        else signal.epochAccum
      if epochCount = signal.epochCountLast then accum
      else (if signal.epochCountLast ≠ 0 then accum.exit else accum).enter := by
  rw [advance_some]
  dsimp only
  split_ifs <;> simp_all [updatePeriod, addDelta, onRegion]

theorem periodAccum_advance :
    (signal.advance period periodLast (some x) hash epochCount).periodAccum =
      let accum := signal.periodAccum.update (some (signal.delta x))
      if period = periodLast then accum
      else (if period ≠ 0 then accum.exit else accum).enter := by
  rw [advance_some]
  dsimp only
  split_ifs <;> simp_all [updatePeriod, addDelta, onRegion]

theorem regionOf_addDelta {d : ℚ} (hp : signal.Pointed) : (signal.addDelta d).regionOf h =
    if h = signal.regionAccumIt then (signal.regionOf h).update (some d)
    else signal.regionOf h :=
  regionOf_onRegion hp

theorem regionOf_updateEpoch :
    (signal.updateEpoch epochCount).regionOf h = signal.regionOf h := by
  rw [regionOf, regionAccum_updateEpoch]
  rfl

theorem Pointed.beforeRegions {d : ℚ} (hp : signal.Pointed) :
    ((signal.addDelta d).updateEpoch epochCount).Pointed := by
  rw [Pointed, regionAccum_updateEpoch, regionAccumIt_updateEpoch]
  exact Pointed.onRegion hp

theorem regionOf_advance (hp : signal.Pointed)
    (hit : signal.regionAccumIt = signal.regionHashLast) :
    (signal.advance period periodLast (some x) hash epochCount).regionOf h =
      let accum := if h = signal.regionHashLast then
          (signal.regionOf h).update (some (signal.delta x))
        else signal.regionOf h
      if signal.regionHashLast = hash then accum
      else if h = signal.regionHashLast ∧ h ≠ regionHashUnmarked then accum.exit
      else if h = hash ∧ h ≠ regionHashUnmarked then accum.enter
      else accum := by
  have hit' : ((signal.addDelta (signal.delta x)).updateEpoch epochCount).regionAccumIt =
      ((signal.addDelta (signal.delta x)).updateEpoch epochCount).regionHashLast := by
    rw [regionAccumIt_updateEpoch, regionHashLast_updateEpoch]
    exact hit
  have hregions : (signal.advance period periodLast (some x) hash epochCount).regionOf h =
      (((signal.addDelta (signal.delta x)).updateEpoch epochCount).updateRegions hash).regionOf
        h := by
    rw [advance_some]
    dsimp only
    split_ifs <;> rfl
  rw [hregions, regionOf_updateRegions hp.beforeRegions hit', regionHashLast_updateEpoch,
    regionOf_updateEpoch, regionOf_addDelta hp, hit]
  rfl

theorem pointed_advance (hp : signal.Pointed)
    (hit : signal.regionAccumIt = signal.regionHashLast) :
    (signal.advance period periodLast (some x) hash epochCount).Pointed ∧
      (signal.advance period periodLast (some x) hash epochCount).regionAccumIt = hash := by
  have hit' : ((signal.addDelta (signal.delta x)).updateEpoch epochCount).regionAccumIt =
      ((signal.addDelta (signal.delta x)).updateEpoch epochCount).regionHashLast := by
    rw [regionAccumIt_updateEpoch, regionHashLast_updateEpoch]
    exact hit
  have hregions : (((signal.addDelta (signal.delta x)).updateEpoch epochCount).updateRegions
      hash).Pointed ∧ _ := pointed_updateRegions hp.beforeRegions hit'
  rw [advance_some]
  dsimp only
  split_ifs <;> exact hregions

end Advance

/-- What a signal holds after the update `k`, among the first `n`. -/
structure Tracks (f : Feed) (n k : ℕ) (signal : SumSignal) : Prop where
  sampleLast_eq : signal.sampleLast = f.lastSample k
  regionHashLast_eq : signal.regionHashLast = f.held f.hash k
  regionAccumIt_eq : signal.regionAccumIt = f.held f.hash k
  epochCountLast_eq : signal.epochCountLast = f.held f.epochCount k
  pointed : signal.Pointed
  total_eq : signal.appAccum.total = f.value n k - f.value n 0
  sum_eq : ∑ h ∈ f.seen n, (signal.regionOf h).total = signal.appAccum.total
  region : ∀ h, h ≠ regionHashUnmarked → Metered (f.value n) (· = h) (f.held f.hash) (k + 1)
    (signal.regionOf h).current (signal.regionOf h).last
  epoch : Metered (f.value n) (· ≠ 0) (f.held f.epochCount) (k + 1)
    signal.epochAccum.current signal.epochAccum.last

namespace Tracks

variable {period periodLast : ℤ}

section

variable (ht : Tracks f n k signal)
include ht

theorem delta_eq (hx : f.sample (k + 1) = some x) (hk : k + 1 < n) :
    signal.delta x = f.value n (k + 1) - f.value n k := by
  rw [delta, ht.sampleLast_eq, Feed.value_succ_of_some hx hk]

theorem iterator : signal.regionAccumIt = signal.regionHashLast :=
  ht.regionAccumIt_eq.trans ht.regionHashLast_eq.symm

/-- The totals of the regions: the region before the update gets the change. -/
theorem total_regionOf_advance (epochCount : ℤ) :
    ((signal.advance period periodLast (some x) hash epochCount).regionOf h).total =
      (signal.regionOf h).total + if h = f.held f.hash k then signal.delta x else 0 := by
  rw [regionOf_advance ht.pointed ht.iterator, ← ht.regionHashLast_eq]
  dsimp only
  split_ifs <;> simp

theorem sum_advance (hk : k + 1 < n) (epochCount : ℤ) :
    ∑ h ∈ f.seen n, ((signal.advance period periodLast (some x) hash epochCount).regionOf
      h).total = signal.appAccum.total + signal.delta x := by
  have hmem : f.held f.hash k ∈ f.seen n := Feed.held_mem_seen (by omega)
  rw [sum_congr rfl fun h _ => ht.total_regionOf_advance epochCount,
    sum_add_distrib, ht.sum_eq, sum_ite_eq_of_mem' _ _ _ hmem]

theorem region_advance (hx : f.sample (k + 1) = some x)
    (hk : k + 1 < n) (hh : h ≠ regionHashUnmarked) (epochCount : ℤ) :
    let accum := (signal.advance period periodLast (some x) (f.hash (k + 1)) epochCount).regionOf h
    Metered (f.value n) (· = h) (f.held f.hash) (k + 2) accum.current accum.last := by
  have hmeter := ht.region h hh
  have hnext : f.held f.hash (k + 1) = f.hash (k + 1) := Feed.held_succ_of_some hx
  have hdelta := ht.delta_eq hx hk
  rw [regionOf_advance ht.pointed ht.iterator, ht.regionHashLast_eq, ← hnext]
  dsimp only
  by_cases hsame : f.held f.hash k = f.held f.hash (k + 1)
  · rw [if_pos hsame]
    by_cases hcur : h = f.held f.hash k
    · rw [if_pos hcur]
      exact hmeter.same hsame.symm fun _ => congrArg _ hdelta
    · rw [if_neg hcur]
      exact hmeter.same hsame.symm fun h' => absurd h'.symm hcur
  · rw [if_neg hsame]
    by_cases hcur : h = f.held f.hash k
    · rw [if_pos ⟨hcur, hh⟩, if_pos hcur]
      have hother : f.held f.hash (k + 1) ≠ h := fun h' => hsame (hcur.symm.trans h'.symm)
      exact hmeter.change_of_mem (Ne.symm hsame) hcur.symm (congrArg _ hdelta)
        fun h' => absurd h' hother
    · rw [if_neg fun h' => hcur h'.1, if_neg hcur]
      by_cases henter : h = f.held f.hash (k + 1)
      · rw [if_pos ⟨henter, hh⟩]
        exact hmeter.change_of_not_mem (Ne.symm hsame) (Ne.symm hcur) fun _ => rfl
      · rw [if_neg fun h' => henter h'.1]
        exact hmeter.change_of_not_mem (Ne.symm hsame) (Ne.symm hcur)
          fun h' => absurd h'.symm henter

theorem epoch_advance (hx : f.sample (k + 1) = some x)
    (hk : k + 1 < n) :
    let accum := (signal.advance period periodLast (some x) hash (f.epochCount (k + 1))).epochAccum
    Metered (f.value n) (· ≠ 0) (f.held f.epochCount) (k + 2) accum.current accum.last := by
  have hmeter := ht.epoch
  have hnext : f.held f.epochCount (k + 1) = f.epochCount (k + 1) := Feed.held_succ_of_some hx
  have hdelta := ht.delta_eq hx hk
  rw [epochAccum_advance, ht.epochCountLast_eq, ← hnext]
  dsimp only
  by_cases hzero : f.held f.epochCount k ≠ 0
  · rw [if_pos hzero, if_pos hzero]
    by_cases hsame : f.held f.epochCount (k + 1) = f.held f.epochCount k
    · rw [if_pos hsame]
      exact hmeter.same hsame fun _ => congrArg _ hdelta
    · rw [if_neg hsame]
      exact hmeter.change_of_mem hsame hzero (congrArg _ hdelta) fun _ => rfl
  · rw [if_neg hzero, if_neg hzero]
    by_cases hsame : f.held f.epochCount (k + 1) = f.held f.epochCount k
    · rw [if_pos hsame]
      exact hmeter.same hsame fun h' => absurd h' hzero
    · rw [if_neg hsame]
      exact hmeter.change_of_not_mem hsame hzero fun _ => rfl

/-- What the signal holds follows the updates, whether or not they have a sample. -/
theorem advance (hk : k + 1 < n) (period periodLast : ℤ) :
    Tracks f n (k + 1) (signal.advance period periodLast (f.sample (k + 1)) (f.hash (k + 1))
      (f.epochCount (k + 1))) := by
  cases hx : f.sample (k + 1) with
  | none =>
    have hvalue : f.value n (k + 1) - f.value n k = 0 := by
      rw [Feed.value_succ_of_none hx, sub_self]
    have hheld : ∀ {κ : Type} (g : ℕ → κ), f.held g (k + 1) = f.held g k := fun g =>
      Feed.held_succ_of_none hx
    have hkeep : ∀ c : ℚ, c = c + (f.value n (k + 1) - f.value n k) := fun c => by
      rw [hvalue, add_zero]
    exact
      { sampleLast_eq := ht.sampleLast_eq.trans (Feed.lastSample_succ_of_none hx).symm
        regionHashLast_eq := ht.regionHashLast_eq.trans (hheld _).symm
        regionAccumIt_eq := ht.regionAccumIt_eq.trans (hheld _).symm
        epochCountLast_eq := ht.epochCountLast_eq.trans (hheld _).symm
        pointed := ht.pointed
        total_eq := by rw [Feed.value_succ_of_none hx]; exact ht.total_eq
        sum_eq := ht.sum_eq
        region := fun h hh => (ht.region h hh).same (hheld _) fun _ => hkeep _
        epoch := ht.epoch.same (hheld _) fun _ => hkeep _ }
  | some x =>
    have hheld : ∀ {κ : Type} (g : ℕ → κ), f.held g (k + 1) = g (k + 1) := fun g =>
      Feed.held_succ_of_some hx
    obtain ⟨hpointed, hit⟩ : (signal.advance period periodLast (some x) (f.hash (k + 1))
      (f.epochCount (k + 1))).Pointed ∧ _ := pointed_advance ht.pointed ht.iterator
    have hlast : (signal.advance period periodLast (some x) (f.hash (k + 1))
        (f.epochCount (k + 1))).sampleLast = some x ∧
        (signal.advance period periodLast (some x) (f.hash (k + 1))
          (f.epochCount (k + 1))).regionHashLast = f.hash (k + 1) := by
      rw [advance_some]
      exact ⟨rfl, rfl⟩
    exact
      { sampleLast_eq := hlast.1.trans (Feed.lastSample_succ_of_some hx).symm
        regionHashLast_eq := hlast.2.trans (hheld _).symm
        regionAccumIt_eq := hit.trans (hheld _).symm
        epochCountLast_eq := epochCountLast_advance.trans (hheld _).symm
        pointed := hpointed
        total_eq := by
          rw [appAccum_advance, SumAccumulator.total_update, ht.total_eq, ht.delta_eq hx hk]
          ring
        sum_eq := by
          rw [ht.sum_advance hk, appAccum_advance, SumAccumulator.total_update]
        region := fun h hh => ht.region_advance hx hk hh _
        epoch := ht.epoch_advance hx hk }

end

theorem init (f : Feed) (n : ℕ) (regionHashIdx epochCountIdx : ℤ) :
    Tracks f n 0 (firstUpdate { regionHashIdx, epochCountIdx } (f.sample 0) (f.hash 0)
      (f.epochCount 0)) := by
  have hregion : ∀ h, (firstUpdate { regionHashIdx, epochCountIdx } (f.sample 0) (f.hash 0)
      (f.epochCount 0)).regionOf h = {} := fun h => regionOf_emplaceHash
  refine ⟨rfl, rfl, rfl, rfl, pointed_emplaceHash, (sub_self _).symm, ?_, fun h _ => ?_, .init ..⟩
  · exact sum_eq_zero fun h _ => by rw [hregion]
  · rw [hregion]
    exact .init ..

end Tracks

theorem regionHashIdx_advance {period periodLast epochCount : ℤ} {sample : Sample} :
    (signal.advance period periodLast sample hash epochCount).regionHashIdx =
        signal.regionHashIdx ∧
      (signal.advance period periodLast sample hash epochCount).epochCountIdx =
        signal.epochCountIdx := by
  cases sample with
  | none => exact ⟨rfl, rfl⟩
  | some x =>
    have hregions : ∀ signal : SumSignal,
        (signal.updateRegions hash).regionHashIdx = signal.regionHashIdx ∧
          (signal.updateRegions hash).epochCountIdx = signal.epochCountIdx := by
      intro signal
      unfold updateRegions updateHashExit updateHashEnter
      dsimp only
      split_ifs <;> exact ⟨rfl, rfl⟩
    have hepoch : ∀ signal : SumSignal,
        (signal.updateEpoch epochCount).regionHashIdx = signal.regionHashIdx ∧
          (signal.updateEpoch epochCount).epochCountIdx = signal.epochCountIdx := by
      intro signal
      unfold updateEpoch
      split_ifs <;> exact ⟨rfl, rfl⟩
    rw [advance_some]
    dsimp only
    obtain ⟨h₁, h₂⟩ := hregions ((signal.addDelta (signal.delta x)).updateEpoch epochCount)
    obtain ⟨h₃, h₄⟩ := hepoch (signal.addDelta (signal.delta x))
    split_ifs <;> exact ⟨h₁.trans h₃, h₂.trans h₄⟩

end SumSignal

/-! ### Periods -/

theorem Sample.toInt_of_nonneg {q : ℚ} (hq : 0 ≤ q) : toInt (some q) = ⌊q⌋ := by
  rw [toInt, Int.tdiv_eq_ediv_of_nonneg (Rat.num_nonneg.mpr hq), Rat.floor_def']

theorem Sample.toInt_neg (q : ℚ) : toInt (some (-q)) = -toInt (some q) := by
  rw [toInt, toInt, Rat.neg_num, Rat.neg_den, Int.neg_tdiv]

theorem Sample.toInt_eq_zero_of_abs_le {p q : ℚ} (h : |p| ≤ |q|) (hq : toInt (some q) = 0) :
    toInt (some p) = 0 := by
  have hfloor : ∀ q : ℚ, toInt (some q) = 0 ↔ ⌊|q|⌋ = 0 := by
    intro q
    obtain hq | hq := le_total 0 q
    · rw [abs_of_nonneg hq, toInt_of_nonneg hq]
    · rw [abs_of_nonpos hq, ← toInt_of_nonneg (neg_nonneg.mpr hq), toInt_neg, neg_eq_zero]
  rw [hfloor] at hq ⊢
  have hle : ⌊|p|⌋ ≤ ⌊|q|⌋ := Int.floor_le_floor h
  have hnonneg : 0 ≤ ⌊|p|⌋ := Int.floor_nonneg.mpr (abs_nonneg p)
  omega

namespace Feed

/-- The first update of every period but the first one has a sample. -/
def SampledAtBoundaries (f : Feed) (n : ℕ) : Prop :=
  ∀ k, k + 1 < n → f.period (k + 1) ≠ f.period k → f.sample (k + 1) ≠ none

/-- No period comes before the first one. -/
def NeverBack (f : Feed) (n : ℕ) : Prop :=
  ∀ k, k + 1 < n → f.period (k + 1) ≠ f.period k → f.period (k + 1) ≠ 0

end Feed

/-- The accumulator of the periods goes on measuring them while their boundaries have samples. -/
theorem SumSignal.Tracks.period_advance {f : Feed} {n k : ℕ} {signal : SumSignal}
    (ht : Tracks f n k signal) (hk : k + 1 < n) (hsampled : f.SampledAtBoundaries n)
    (hback : f.NeverBack n) (hmeter : Metered (f.value n) (fun _ => True) f.period (k + 1)
      signal.periodAccum.current signal.periodAccum.last) (hash : ℕ) (epochCount : ℤ) :
    let accum := (signal.advance (f.period (k + 1)) (f.period k) (f.sample (k + 1)) hash
      epochCount).periodAccum
    Metered (f.value n) (fun _ => True) f.period (k + 2) accum.current accum.last := by
  cases hx : f.sample (k + 1) with
  | none =>
    have hsame : f.period (k + 1) = f.period k := by
      by_contra hne
      exact hsampled k hk hne hx
    refine hmeter.same hsame fun _ => ?_
    rw [Feed.value_succ_of_none hx, sub_self, add_zero]
    rfl
  | some x =>
    have hdelta := ht.delta_eq hx hk
    rw [periodAccum_advance]
    dsimp only
    by_cases hsame : f.period (k + 1) = f.period k
    · rw [if_pos hsame]
      exact hmeter.same hsame fun _ => congrArg _ hdelta
    · rw [if_neg hsame, if_pos (hback k hk hsame)]
      exact hmeter.change_of_mem hsame trivial (congrArg _ hdelta) fun _ => rfl

/-! ### Every sequence of updates -/

variable {batches : ℕ → ℤ → Sample} {idx : ℤ}

namespace SampleAggregator

/-- The aggregator before its first update. -/
inductive Prepared : SampleAggregator → Prop where
  | new (timeIdx : ℤ) : Prepared { timeIdx }
  | push {s s' : SampleAggregator} {result regionHashIdx epochCountIdx idx : ℤ} (hs : Prepared s)
      (h : pushSignalTotal result regionHashIdx epochCountIdx s = .ok idx s') : Prepared s'
  | period {s s' : SampleAggregator} {duration : ℚ} (hs : Prepared s)
      (h : setPeriodDuration duration s = .ok () s') : Prepared s'

/-- The aggregator after the updates with the first `n` batches. -/
def after (s : SampleAggregator) (batches : ℕ → ℤ → Sample) : ℕ → SampleAggregator
  | 0 => s
  | n + 1 => (s.after batches n).update (batches n)

/-- What the updates with the batches read for a pushed signal. -/
def feed (s : SampleAggregator) (batches : ℕ → ℤ → Sample) (idx : ℤ) (signal : SumSignal) :
    Feed where
  sample k := batches k idx
  hash k := sampleToHash (batches k signal.regionHashIdx)
  epochCount k := Sample.toInt (batches k signal.epochCountIdx)
  period k := s.getPeriod (batches k)

/-- The time is not negative and does not go back. -/
def Clocked (s : SampleAggregator) (batches : ℕ → ℤ → Sample) : Prop :=
  ∃ t : ℕ → ℚ, 0 ≤ t 0 ∧ Monotone t ∧ ∀ k, batches k s.timeIdx = some (t k)

variable {s : SampleAggregator} {signal : SumSignal}

theorem pushSignalTotal_of_not_updated {result regionHashIdx epochCountIdx : ℤ}
    (h : s.isUpdated = false) : pushSignalTotal result regionHashIdx epochCountIdx s =
      .ok result (if (s.sumSignal result).isNone then
        { s with
          sumSignal := Function.update s.sumSignal result (some { regionHashIdx, epochCountIdx }) }
        else s) := by
  have hupdated : ¬ s.isUpdated := by simp [h]
  refine (congrFun (if_neg hupdated) s).trans ?_
  by_cases hnew : (s.sumSignal result).isNone
  · rw [if_pos hnew, if_pos hnew]
    rfl
  · rw [if_neg hnew, if_neg hnew]
    rfl

theorem setPeriodDuration_of_not_updated {duration : ℚ} (h : s.isUpdated = false) :
    setPeriodDuration duration s = .ok () { s with periodDuration := duration } := by
  have hupdated : ¬ s.isUpdated := by simp [h]
  exact congrFun (if_neg hupdated) s

/-- A signal that has been pushed is new until the first update. -/
theorem Prepared.fresh (hs : Prepared s) : s.isUpdated = false ∧
    ∀ idx signal, s.sumSignal idx = some signal →
      ∃ regionHashIdx epochCountIdx, signal = { regionHashIdx, epochCountIdx } := by
  induction hs with
  | new timeIdx => exact ⟨rfl, fun idx signal h => absurd h.symm (some_ne_none _)⟩
  | @push s s' result regionHashIdx epochCountIdx idx hs h ih =>
    obtain ⟨hupdated, hfresh⟩ := ih
    rw [pushSignalTotal_of_not_updated hupdated] at h
    obtain ⟨-, rfl⟩ := (EStateM.Result.ok.injEq ..).mp h
    by_cases hnew : (s.sumSignal result).isNone
    · rw [if_pos hnew]
      refine ⟨hupdated, fun idx signal hsignal => ?_⟩
      dsimp only at hsignal
      by_cases hidx : idx = result
      · subst hidx
        rw [Function.update_self] at hsignal
        exact ⟨regionHashIdx, epochCountIdx, (Option.some.inj hsignal).symm⟩
      · rw [Function.update_of_ne hidx] at hsignal
        exact hfresh idx signal hsignal
    · rw [if_neg hnew]
      exact ⟨hupdated, hfresh⟩
  | period hs h ih =>
    obtain ⟨hupdated, hfresh⟩ := ih
    rw [setPeriodDuration_of_not_updated hupdated] at h
    obtain ⟨-, rfl⟩ := (EStateM.Result.ok.injEq ..).mp h
    exact ⟨hupdated, hfresh⟩

theorem neverBack (hclock : s.Clocked batches) : (s.feed batches idx signal).NeverBack n := by
  obtain ⟨t, hzero, hmono, ht⟩ := hclock
  intro k _ hne hback
  refine hne (hback.trans ?_)
  symm
  change s.getPeriod (batches k) = 0
  change s.getPeriod (batches (k + 1)) = 0 at hback
  unfold getPeriod at *
  by_cases hduration : s.periodDuration ≠ 0
  · rw [if_pos hduration, ht, map_some] at hback ⊢
    refine Sample.toInt_eq_zero_of_abs_le ?_ hback
    have hk : 0 ≤ t k := hzero.trans (hmono (Nat.zero_le k))
    have hle : t k ≤ t (k + 1) := hmono (Nat.le_succ k)
    rw [abs_div, abs_div, abs_of_nonneg hk, abs_of_nonneg (hk.trans hle)]
    exact div_le_div_of_nonneg_right hle (abs_nonneg _)
  · rw [if_neg hduration]

/-- What the aggregator holds of a signal after the update `k`, among the first `n`. -/
structure Holds (s₀ : SampleAggregator) (batches : ℕ → ℤ → Sample) (idx : ℤ) (signal₀ : SumSignal)
    (n k : ℕ) (s : SampleAggregator) (signal : SumSignal) : Prop where
  isUpdated_eq : s.isUpdated = true
  timeIdx_eq : s.timeIdx = s₀.timeIdx
  periodDuration_eq : s.periodDuration = s₀.periodDuration
  periodLast_eq : s.periodLast = s₀.getPeriod (batches k)
  sumSignal_eq : s.sumSignal idx = some signal
  regionHashIdx_eq : signal.regionHashIdx = signal₀.regionHashIdx
  epochCountIdx_eq : signal.epochCountIdx = signal₀.epochCountIdx
  tracks : signal.Tracks (s₀.feed batches idx signal₀) n k
  periods : (s₀.feed batches idx signal₀).SampledAtBoundaries n →
    (s₀.feed batches idx signal₀).NeverBack n →
      Metered ((s₀.feed batches idx signal₀).value n) (fun _ => True)
        (s₀.feed batches idx signal₀).period (k + 1) signal.periodAccum.current
        signal.periodAccum.last

/-- The first update. -/
theorem sumSignal_update_first (h : s.isUpdated = false) (hsignal : s.sumSignal idx = some signal)
    (samples : ℤ → Sample) : (s.update samples).sumSignal idx =
      some (signal.firstUpdate (samples idx) (sampleToHash (samples signal.regionHashIdx))
        (Sample.toInt (samples signal.epochCountIdx))) := by
  change (s.sumSignal idx).map _ = _
  rw [hsignal, map_some, h]
  rfl

theorem sumSignal_update (h : s.isUpdated = true) (hsignal : s.sumSignal idx = some signal)
    (samples : ℤ → Sample) : (s.update samples).sumSignal idx =
      some (signal.advance (s.getPeriod samples) s.periodLast (samples idx)
        (sampleToHash (samples signal.regionHashIdx))
        (Sample.toInt (samples signal.epochCountIdx))) := by
  change (s.sumSignal idx).map _ = _
  rw [hsignal, map_some, h]
  rfl

theorem Holds.getPeriod_eq {s₀ : SampleAggregator} {signal₀ : SumSignal}
    (h : Holds s₀ batches idx signal₀ n k s signal) (samples : ℤ → Sample) :
    s.getPeriod samples = s₀.getPeriod samples := by
  unfold getPeriod
  rw [h.periodDuration_eq, h.timeIdx_eq]

theorem Holds.update {s₀ : SampleAggregator} {signal₀ : SumSignal}
    (h : Holds s₀ batches idx signal₀ n k s signal) (hk : k + 1 < n) :
    ∃ signal', Holds s₀ batches idx signal₀ n (k + 1) (s.update (batches (k + 1))) signal' := by
  have hsignal := sumSignal_update h.isUpdated_eq h.sumSignal_eq (batches (k + 1))
  rw [h.getPeriod_eq, h.periodLast_eq, h.regionHashIdx_eq, h.epochCountIdx_eq] at hsignal
  refine ⟨_, rfl, h.timeIdx_eq, h.periodDuration_eq, h.getPeriod_eq _, hsignal, ?_, ?_, ?_, ?_⟩
  · exact SumSignal.regionHashIdx_advance.1.trans h.regionHashIdx_eq
  · exact SumSignal.regionHashIdx_advance.2.trans h.epochCountIdx_eq
  · exact h.tracks.advance hk _ _
  · intro hsampled hback
    exact h.tracks.period_advance hk hsampled hback (h.periods hsampled hback) _ _

theorem holds_after (hs : Prepared s) (hsignal : s.sumSignal idx = some signal) (hk : k < n) :
    ∃ signal', Holds s batches idx signal n k (s.after batches (k + 1)) signal' := by
  obtain ⟨hupdated, hfresh⟩ := hs.fresh
  obtain ⟨regionHashIdx, epochCountIdx, rfl⟩ := hfresh idx signal hsignal
  induction k with
  | zero =>
    refine ⟨_, rfl, rfl, rfl, rfl, sumSignal_update_first hupdated hsignal _, rfl, rfl, ?_, ?_⟩
    · exact .init (s.feed batches idx _) n regionHashIdx epochCountIdx
    · exact fun _ _ => .init ..
  | succ k ih =>
    obtain ⟨signal', h⟩ := ih (by omega)
    exact h.update hk

/-! ### The accumulated values -/

/-- The totals of the regions that have been seen sum up to that of the application. -/
def Partitions (s : SampleAggregator) (idx : ℤ) (f : Feed) (n : ℕ) : Prop :=
  ∃ total : ℕ → ℚ, (∀ h ∈ f.seen n, s.sampleRegion idx h = .ok (some (total h))) ∧
    s.sampleApplication idx = .ok (some (∑ h ∈ f.seen n, total h))

/-- The total of the application is the last number less the first number. -/
def TotalsChange (s : SampleAggregator) (idx : ℤ) (f : Feed) (n : ℕ) : Prop :=
  ∀ a b x y, a < n → f.sample a = some x → (∀ k, k < a → f.sample k = none) →
    b < n → f.sample b = some y → (∀ k, b < k → k < n → f.sample k = none) →
      s.sampleApplication idx = .ok (some (y - x))

/-- The value of the last visit of a region is the change over it. -/
def MeasuresVisit (s : SampleAggregator) (idx : ℤ) (f : Feed) (n h : ℕ) : Prop :=
  ∀ i j, LastSpan (· = h) (f.held f.hash) n i j →
    s.sampleRegionLast idx h = .ok (some (f.value n j - f.value n i))

/-- The value of the last epoch is the change over it. -/
def MeasuresEpoch (s : SampleAggregator) (idx : ℤ) (f : Feed) (n : ℕ) : Prop :=
  ∀ i j, LastSpan (· ≠ 0) (f.held f.epochCount) n i j →
    s.sampleEpochLast idx = .ok (some (f.value n j - f.value n i))

/-- The value of the last period is the change over it. -/
def MeasuresPeriod (s : SampleAggregator) (idx : ℤ) (f : Feed) (n : ℕ) : Prop :=
  ∀ i j, LastSpan (fun _ => True) f.period n i j →
    s.samplePeriodLast idx = .ok (some (f.value n j - f.value n i))

/-- The accounts of a signal after `n` updates. -/
structure Accounts (s : SampleAggregator) (idx : ℤ) (f : Feed) (n : ℕ) : Prop where
  /-- The two hashes stand for all epochs and for the application. -/
  partitions : regionHashEpoch ∉ f.seen n → regionHashApp ∉ f.seen n → s.Partitions idx f n
  totalsChange : s.TotalsChange idx f n
  /-- The time outside of the marked regions is no visit. -/
  visit : ∀ h, h ≠ regionHashUnmarked → h ≠ regionHashEpoch → s.MeasuresVisit idx f n h
  epoch : s.MeasuresEpoch idx f n
  period : f.SampledAtBoundaries n → s.MeasuresPeriod idx f n

variable {s₀ : SampleAggregator} {signal₀ : SumSignal}

section

variable (h : Holds s₀ batches idx signal₀ n k s signal)
include h

theorem Holds.findSignal (function : String) :
    s.findSignal function idx = .ok signal := by
  unfold SampleAggregator.findSignal
  rw [h.sumSignal_eq]

theorem Holds.sampleApplication :
    s.sampleApplication idx = .ok (some signal.appAccum.total) := by
  unfold SampleAggregator.sampleApplication
  rw [if_pos h.isUpdated_eq, h.findSignal]
  rfl

theorem Holds.sampleRegionHelper (hash : ℕ)
    (isLast : Bool) : s.sampleRegionHelper idx hash isLast =
      .ok (some (if isLast then (signal.regionOf hash).last
        else (signal.regionOf hash).total)) := by
  unfold SampleAggregator.sampleRegionHelper SumSignal.regionOf
  rw [h.findSignal]
  cases haccum : signal.regionAccum hash with
  | none => cases isLast <;> simp [Except.map, haccum]
  | some accum => cases isLast <;> simp [Except.map, haccum, SumAccumulator.intervalTotal]

theorem Holds.partitions
    (hepoch : regionHashEpoch ∉ (s₀.feed batches idx signal₀).seen n)
    (happ : regionHashApp ∉ (s₀.feed batches idx signal₀).seen n) :
    s.Partitions idx (s₀.feed batches idx signal₀) n := by
  refine ⟨fun r => (signal.regionOf r).total, fun r hr => ?_, ?_⟩
  · have hupdated : ¬ ¬ s.isUpdated := not_not.mpr h.isUpdated_eq
    have hr₁ : r ≠ regionHashEpoch := fun hr' => hepoch (hr' ▸ hr)
    have hr₂ : r ≠ regionHashApp := fun hr' => happ (hr' ▸ hr)
    rw [SampleAggregator.sampleRegion, if_neg hupdated, if_neg hr₁, if_neg hr₂,
      h.sampleRegionHelper]
    rfl
  · rw [h.sampleApplication, h.tracks.sum_eq]

end

end SampleAggregator

/-- The last number up to the last update. -/
theorem Feed.lastSample_eq {f : Feed} {b k : ℕ} {y : ℚ} (hb : b ≤ k) (hy : f.sample b = some y)
    (hlater : ∀ i, b < i → i ≤ k → f.sample i = none) : f.lastSample k = some y := by
  induction k, hb using Nat.le_induction with
  | base =>
    cases b with
    | zero => exact hy
    | succ b => exact lastSample_succ_of_some hy
  | succ k hb ih =>
    rw [lastSample_succ_of_none (hlater (k + 1) (by omega) (Nat.le_refl _))]
    exact ih fun i hi hik => hlater i hi (by omega)

theorem Feed.firstSample_eq {f : Feed} {a n : ℕ} {x : ℚ} (ha : a < n) (hx : f.sample a = some x)
    (hearlier : ∀ i, i < a → f.sample i = none) : f.firstSample n = some x := by
  have hnone : ∀ m, m ≤ a → f.firstSample m = none := by
    intro m hm
    induction m with
    | zero => rfl
    | succ m ih => rw [firstSample, ih (by omega), hearlier m (by omega), none_or]
  refine firstSample_of_le ?_ (show a + 1 ≤ n from ha)
  rw [firstSample, hnone a (Nat.le_refl a), none_or, hx]

theorem Feed.value_zero {f : Feed} {a n : ℕ} {x : ℚ} (ha : a < n) (hx : f.sample a = some x)
    (hearlier : ∀ i, i < a → f.sample i = none) : f.value n 0 = x := by
  rw [value, lastSample, firstSample_eq ha hx hearlier]
  cases a with
  | zero => rw [hx]; rfl
  | succ a => rw [hearlier 0 a.succ_pos]; rfl

namespace SampleAggregator

variable {s s₀ : SampleAggregator} {signal signal₀ : SumSignal}

section

variable (h : Holds s₀ batches idx signal₀ (k + 1) k s signal)
include h

theorem Holds.totalsChange :
    s.TotalsChange idx (s₀.feed batches idx signal₀) (k + 1) := by
  intro a b x y ha hx hearlier hb hy hlater
  have hlast := Feed.lastSample_eq (Nat.le_of_lt_succ hb) hy fun i hi hik =>
    hlater i hi (Nat.lt_succ_of_le hik)
  rw [h.sampleApplication, h.tracks.total_eq, Feed.value_zero ha hx hearlier, Feed.value, hlast]
  rfl

theorem Holds.measuresVisit {r : ℕ}
    (hmarked : r ≠ regionHashUnmarked) (hepoch : r ≠ regionHashEpoch) :
    s.MeasuresVisit idx (s₀.feed batches idx signal₀) (k + 1) r := by
  intro i j hlast
  have hupdated : ¬ ¬ s.isUpdated := not_not.mpr h.isUpdated_eq
  rw [SampleAggregator.sampleRegionLast, if_neg hupdated, if_neg hepoch, h.sampleRegionHelper,
    if_pos rfl, (h.tracks.region r hmarked).last_eq i j hlast]

theorem Holds.measuresEpoch :
    s.MeasuresEpoch idx (s₀.feed batches idx signal₀) (k + 1) := by
  intro i j hlast
  rw [SampleAggregator.sampleEpochLast, if_pos h.isUpdated_eq, h.findSignal,
    ← h.tracks.epoch.last_eq i j hlast]
  rfl

theorem Holds.measuresPeriod
    (hsampled : (s₀.feed batches idx signal₀).SampledAtBoundaries (k + 1))
    (hback : (s₀.feed batches idx signal₀).NeverBack (k + 1)) :
    s.MeasuresPeriod idx (s₀.feed batches idx signal₀) (k + 1) := by
  intro i j hlast
  have hduration : s.periodDuration ≠ 0 := by
    intro hzero
    rw [h.periodDuration_eq] at hzero
    have hperiod : ∀ k, (s₀.feed batches idx signal₀).period k = 0 := fun k =>
      if_neg (not_not.mpr hzero)
    exact hlast.span.ends ((hperiod j).trans (hperiod i).symm)
  have hupdated : ¬ (¬ s.isUpdated ∨ s.periodDuration = 0) := by
    rintro (hnot | hzero)
    · exact hnot h.isUpdated_eq
    · exact hduration hzero
  rw [SampleAggregator.samplePeriodLast, if_neg hupdated, h.findSignal,
    ← (h.periods hsampled hback).last_eq i j hlast]
  rfl

end

/-- After every sequence of updates, the regions share the total of the application, which is the
change of the signal, and the last visit, epoch and period are measured. -/
theorem accounts_of_prepared (hs : Prepared s) (hclock : s.Clocked batches)
    (hsignal : s.sumSignal idx = some signal) (hn : 0 < n) :
    (s.after batches n).Accounts idx (s.feed batches idx signal) n := by
  obtain ⟨k, rfl⟩ := Nat.exists_eq_succ_of_ne_zero (Nat.ne_of_gt hn)
  obtain ⟨signal', h⟩ := holds_after hs hsignal k.lt_succ_self
  exact
    { partitions := h.partitions
      totalsChange := h.totalsChange
      visit := fun r hmarked hepoch => h.measuresVisit hmarked hepoch
      epoch := h.measuresEpoch
      period := fun hsampled => h.measuresPeriod hsampled (neverBack hclock) }

/-- An aggregator with the signal 1, and periods of a second. -/
def oneSignal : SampleAggregator where
  timeIdx := 0
  sumSignal := Function.update (fun _ => none) 1 (some { regionHashIdx := 2, epochCountIdx := 3 })
  periodDuration := 1

theorem prepared_oneSignal : Prepared oneSignal := by
  have hpush : Prepared { oneSignal with periodDuration := 0 } :=
    .push (.new 0) (pushSignalTotal_of_not_updated rfl : pushSignalTotal 1 2 3 _ = _)
  exact .period hpush (setPeriodDuration_of_not_updated rfl)

/-- Batches at every half of a second. -/
def halfSeconds (samples : ℕ → Sample) (hash : ℕ → ℕ) (k : ℕ) (idx : ℤ) : Sample :=
  if idx = 0 then some (k / 2)
  else if idx = 1 then samples k
  else if idx = 2 then some (hash k)
  else some 0

theorem clocked_halfSeconds (samples : ℕ → Sample) (hash : ℕ → ℕ) :
    oneSignal.Clocked (halfSeconds samples hash) := by
  refine ⟨fun k => k / 2, by simp, fun j k hjk => ?_, fun k => rfl⟩
  exact div_le_div_of_nonneg_right (Nat.cast_le.mpr hjk) (by decide)

theorem accounts_of_two_regions :
    (oneSignal.after (halfSeconds (fun k => some (3 * k)) (· % 2)) 4).Accounts 1
      (oneSignal.feed (halfSeconds (fun k => some (3 * k)) (· % 2)) 1
        { regionHashIdx := 2, epochCountIdx := 3 }) 4 :=
  accounts_of_prepared prepared_oneSignal (clocked_halfSeconds _ _) rfl (by decide)

/-- The first sample of the second period is NaN. -/
def threeNumbers (k : ℕ) : Sample := [some 0, some 3, none, some 5].getD k none

/-- No region at first, and then one with the hash that stands for the epochs. -/
def unmarkedFirst (k : ℕ) : ℕ := if k = 0 then regionHashUnmarked else regionHashEpoch

/-- The time outside of the regions is no visit, the hash of the epochs is no region, and a period
that begins with NaN is missed. -/
theorem not_accounted : ∃ batches signal, oneSignal.Clocked batches ∧
    oneSignal.sumSignal 1 = some signal ∧
    ¬ (oneSignal.after batches 4).Partitions 1 (oneSignal.feed batches 1 signal) 4 ∧
    ¬ (oneSignal.after batches 4).MeasuresVisit 1 (oneSignal.feed batches 1 signal) 4
      regionHashUnmarked ∧
    ¬ (oneSignal.after batches 4).MeasuresPeriod 1 (oneSignal.feed batches 1 signal) 4 := by
  refine ⟨halfSeconds threeNumbers unmarkedFirst, _, clocked_halfSeconds _ _, rfl, ?_,
    fun h => ?_, fun h => ?_⟩
  · rintro ⟨total, hregions, happ⟩
    have hseen : (oneSignal.feed (halfSeconds threeNumbers unmarkedFirst) 1
        { regionHashIdx := 2, epochCountIdx := 3 }).seen 4 =
          {regionHashUnmarked, regionHashEpoch} := by decide +kernel
    rw [hseen] at hregions happ
    rw [sum_pair (by decide)] at happ
    have hunmarked : Except.ok (some 3) = Except.ok (some (total regionHashUnmarked)) :=
      (by decide +kernel : (oneSignal.after (halfSeconds threeNumbers unmarkedFirst) 4).sampleRegion
        1 regionHashUnmarked = .ok (some 3)).symm.trans (hregions _ (by decide))
    have hepoch : Except.ok (some 0) = Except.ok (some (total regionHashEpoch)) :=
      (by decide +kernel : (oneSignal.after (halfSeconds threeNumbers unmarkedFirst) 4).sampleRegion
        1 regionHashEpoch = .ok (some 0)).symm.trans (hregions _ (by decide))
    rw [← Option.some.inj (Except.ok.inj hunmarked), ← Option.some.inj (Except.ok.inj hepoch)]
      at happ
    exact absurd happ (by decide +kernel)
  · refine absurd (h 0 1 (lastSpan_of_open ⟨by decide, by decide, fun k _ hk => ?_,
      by decide +kernel, .inl rfl⟩ ⟨by decide, fun k hk hk4 => ?_, .inr (by decide +kernel)⟩
      (by decide +kernel))) (by decide +kernel)
    · interval_cases k
      rfl
    · interval_cases k <;> decide +kernel
  · refine absurd (h 0 2 (lastSpan_of_open ⟨by decide, by decide, fun k _ hk => ?_,
      by decide +kernel, .inl rfl⟩ ⟨by decide, fun k hk hk4 => ?_, .inr (by decide +kernel)⟩
      trivial)) (by decide +kernel)
    · interval_cases k <;> decide +kernel
    · interval_cases k <;> decide +kernel

end SampleAggregator

end Geopm
