import Geopm.Lib.Scaling
import Geopm.Pio.Arithmetic

/-!
# `FrequencyTimeBalancerImp`

Recommends a frequency for each core, from the times that the cores have needed and from the
frequencies that were set and that were achieved.  A core without a recorded time has the time NaN.

* `FrequencyTimeBalancer` : the members; `updateBalanceTargets`, `getBalancedFrequencies`,
  `balanceFrequenciesByTime` : the methods;
* `IsArgsort` : what `std::sort` may return;
* `exists_target` : the target time is positive;
* `getBalancedFrequencies_eq` : the frequencies are those of `Scaling.raise`;
* `balanceFrequenciesByTime_fair` : they are bounded, and in the order of the cycles.
-/

namespace Geopm

open Pio (Value)
open Scaling (clamp raise le_clamp clamp_le)
open List hiding set
open Option

/-- The members of `FrequencyTimeBalancerImp` but the order of the cores. -/
structure FrequencyTimeBalancer where
  minimumFrequency : ℚ
  maximumFrequency : ℚ
  frequencyStepSize : ℚ
  targetTime : Value := none
  cutoffFrequency : Value := none

namespace FrequencyTimeBalancer

variable {n : ℕ}

/-! ### The methods -/

/-- A core is laggier when it needs more cycles; unrecorded times are at the end. -/
def isLaggierCoreIdx (previousTimes achieved : Fin n → Value) (lhs rhs : Fin n) : Bool :=
  if previousTimes lhs = none then false
  else if previousTimes rhs = none then true
  else ((previousTimes lhs).mul (achieved lhs)).gt ((previousTimes rhs).mul (achieved rhs))

/-- The order of the cores that `std::sort` has left in `m_lagginess_idx`: none is followed by one
that is laggier. -/
structure IsArgsort (previousTimes achieved : Fin n → Value) (lagginessIdx : List (Fin n)) :
    Prop where
  perm : lagginessIdx.Perm (List.finRange n)
  sorted : lagginessIdx.Pairwise fun lhs rhs =>
    isLaggierCoreIdx previousTimes achieved rhs lhs = false

/-- A frequency that was not limited. -/
def isUnlimited (b : FrequencyTimeBalancer) (frequency : Value) : Bool :=
  Value.le (some b.maximumFrequency) frequency

/-- The core whose time is the target: the laggiest of those that were not limited. -/
def referenceCore (b : FrequencyTimeBalancer) (previousTimes control : Fin n → Value)
    (lagginessIdx : List (Fin n)) (lagger : Fin n) : Fin n :=
  (lagginessIdx.find? fun i =>
    decide (previousTimes i ≠ none) && b.isUnlimited (control i)).getD lagger

/-- The time of the core at another frequency. -/
def timeAt (previousTimes achieved : Fin n → Value) (frequency : Value) (i : Fin n) : Value :=
  ((previousTimes i).mul (achieved i)).quot frequency

/-- A limit for a number of cores of high priority: the target time and the cutoff frequency that
are chosen when it makes the target time shorter. -/
def considerLimit (previousTimes achieved : Fin n → Value) (lagginessIdx : List (Fin n))
    (lagger : Fin n) (lowPriorityFrequency : Value) (targets : Value × Value)
    (hpCountFrequency : ℕ × Value) : Value × Value :=
  let laggiestHighPriorityTime := timeAt previousTimes achieved hpCountFrequency.2 lagger
  let predictedLongPole :=
    match lagginessIdx[hpCountFrequency.1]? with
    | some laggiestLpIdx =>
      (timeAt previousTimes achieved lowPriorityFrequency laggiestLpIdx).max
        laggiestHighPriorityTime
    | none => laggiestHighPriorityTime
  if predictedLongPole.lt targets.1 then (predictedLongPole, lowPriorityFrequency) else targets

def updateBalanceTargets (previousTimes control achieved : Fin n → Value)
    (limits : List (ℕ × Value)) (lowPriorityFrequency : Value) (lagginessIdx : List (Fin n))
    (b : FrequencyTimeBalancer) : FrequencyTimeBalancer :=
  match lagginessIdx with
  | [] => b
  | lagger :: _ =>
    let reference := b.referenceCore previousTimes control lagginessIdx lagger
    let targets := limits.foldl
      (considerLimit previousTimes achieved lagginessIdx lagger lowPriorityFrequency)
      (previousTimes reference, some b.minimumFrequency)
    { b with targetTime := targets.1, cutoffFrequency := targets.2 }

/-- `std::min(m_maximum_frequency, std::max(m_minimum_frequency, frequency))`. -/
def clampFrequency (b : FrequencyTimeBalancer) (frequency : Value) : Value :=
  Value.min (some b.maximumFrequency) (Value.max (some b.minimumFrequency) frequency)

/-- The frequency that results in the target time. -/
def desiredFrequency (b : FrequencyTimeBalancer) (previousTimes achieved : Fin n → Value)
    (i : Fin n) : Value :=
  let desired := ((achieved i).mul (previousTimes i)).quot b.targetTime
  if desired.le b.cutoffFrequency then desired.min b.cutoffFrequency else desired

/-- One turn of the loop that selects the frequencies, with the largest of them. -/
def selectFrequency (b : FrequencyTimeBalancer) (previousTimes achieved : Fin n → Value)
    (s : (Fin n → Value) × Value) (i : Fin n) : (Fin n → Value) × Value :=
  let desired := b.desiredFrequency previousTimes achieved i
  if previousTimes i ≠ none ∧ desired ≠ none then
    (Function.update s.1 i (b.clampFrequency desired), s.2.max (b.clampFrequency desired))
  else s

/-- The core is one of high priority, or its frequency is within a step of the largest one. -/
def isTop (b : FrequencyTimeBalancer) (maxGroupFrequency frequency : Value) : Bool :=
  frequency.gt b.cutoffFrequency ||
    (maxGroupFrequency.sub frequency).lt (some b.frequencyStepSize)

/-- One turn of the loop that scales the frequencies up. -/
def scaleFrequency (b : FrequencyTimeBalancer) (previousTimes : Fin n → Value)
    (maxGroupFrequency : Value) (desired : Fin n → Value) (i : Fin n) : Fin n → Value :=
  let frequencyScale := Value.quot (some b.maximumFrequency) maxGroupFrequency
  if previousTimes i ≠ none ∧ desired i ≠ none then
    if b.isTop maxGroupFrequency (desired i) then
      Function.update desired i (b.clampFrequency ((desired i).mul frequencyScale))
    else desired
  else desired

def getBalancedFrequencies (previousTimes control achieved : Fin n → Value)
    (lagginessIdx : List (Fin n)) (b : FrequencyTimeBalancer) : Fin n → Value :=
  if (List.finRange n).all fun i => !b.isUnlimited (control i) then
    fun _ => some b.maximumFrequency
  else
    let (desired, maxGroupFrequency) := (List.finRange n).foldl
      (b.selectFrequency previousTimes achieved) (control, some b.minimumFrequency)
    if maxGroupFrequency.lt (some b.maximumFrequency) then
      lagginessIdx.foldl (b.scaleFrequency previousTimes maxGroupFrequency) desired
    else desired

/-- `balance_frequencies_by_time`, with the order of the cores that is found. -/
def balanceFrequenciesByTime (previousTimes control achieved : Fin n → Value)
    (limits : List (ℕ × Value)) (lowPriorityFrequency : Value) (lagginessIdx : List (Fin n))
    (b : FrequencyTimeBalancer) : Fin n → Value :=
  (b.updateBalanceTargets previousTimes control achieved limits lowPriorityFrequency
    lagginessIdx).getBalancedFrequencies previousTimes control achieved lagginessIdx

/-! ### Numbers -/

variable {b : FrequencyTimeBalancer} {previousTimes control achieved : Fin n → Value}

section Numbers

theorem clampFrequency_ne_none (b : FrequencyTimeBalancer) (f : Value) :
    b.clampFrequency f ≠ none := by
  obtain ⟨x, hx⟩ : ∃ x : ℚ, Value.max (some b.minimumFrequency) f = some x := by
    cases f with
    | none => exact ⟨_, rfl⟩
    | some f => exact ⟨_, Value.max_some _ _⟩
  rw [clampFrequency, hx, Value.min_some]
  exact some_ne_none _

/-- Replacing a frequency by a number. -/
theorem update_ne_none {desired : Fin n → Value} (h : ∀ i, desired i ≠ none) (j : Fin n)
    {f : Value} (hf : f ≠ none) (i : Fin n) : Function.update desired j f i ≠ none :=
  (Function.forall_update_iff desired fun _ f => f ≠ none).mpr ⟨hf, fun i _ => h i⟩ i

theorem selectFrequency_ne_none {s : (Fin n → Value) × Value} (h : ∀ i, s.1 i ≠ none) (j i : Fin n) :
    (b.selectFrequency previousTimes achieved s j).1 i ≠ none := by
  rw [selectFrequency]
  split_ifs
  · exact update_ne_none h j (clampFrequency_ne_none b _) i
  · exact h i

theorem scaleFrequency_ne_none {group : Value} {desired : Fin n → Value}
    (h : ∀ i, desired i ≠ none) (j i : Fin n) :
    b.scaleFrequency previousTimes group desired j i ≠ none := by
  rw [scaleFrequency]
  split_ifs
  · exact update_ne_none h j (clampFrequency_ne_none b _) i
  · exact h i
  · exact h i

theorem getBalancedFrequencies_ne_none (h : ∀ i, control i ≠ none) (lagginessIdx : List (Fin n))
    (i : Fin n) : b.getBalancedFrequencies previousTimes control achieved lagginessIdx i ≠ none := by
  have hselect : ∀ (is : List (Fin n)) (s : (Fin n → Value) × Value), (∀ i, s.1 i ≠ none) →
      ∀ i, (is.foldl (b.selectFrequency previousTimes achieved) s).1 i ≠ none := by
    intro is
    induction is with
    | nil => exact fun _ hs => hs
    | cons j is ih => exact fun s hs => ih _ (selectFrequency_ne_none hs j)
  have hscale : ∀ (group : Value) (is : List (Fin n)) (desired : Fin n → Value),
      (∀ i, desired i ≠ none) →
      ∀ i, is.foldl (b.scaleFrequency previousTimes group) desired i ≠ none := by
    intro group is
    induction is with
    | nil => exact fun _ hs => hs
    | cons j is ih => exact fun desired hs => ih _ (scaleFrequency_ne_none hs j)
  simp only [getBalancedFrequencies]
  split_ifs
  · exact some_ne_none _
  · exact hscale _ _ _ (hselect _ _ h) i
  · exact hselect _ _ h i

end Numbers

/-! ### The target time -/

/-- The times are positive, and one is recorded; the frequencies that were achieved are positive. -/
structure Observed (previousTimes achieved : Fin n → Value) (frequency : Fin n → ℚ) : Prop where
  achieved : ∀ i, achieved i = some (frequency i)
  frequency_pos : ∀ i, 0 < frequency i
  time_pos : ∀ i time, previousTimes i = some time → 0 < time
  recorded : ∃ i, previousTimes i ≠ none

variable {frequency : Fin n → ℚ} {lagginessIdx : List (Fin n)}

section Target

variable {lagger : Fin n}

section

variable (h : Observed previousTimes achieved frequency)
include h

/-- The first core of the order has a recorded time. -/
theorem Observed.lagger_recorded
    {rest : List (Fin n)} (hsort : IsArgsort previousTimes achieved (lagger :: rest)) :
    previousTimes lagger ≠ none := by
  intro hnone
  obtain ⟨i, hi⟩ := h.recorded
  have hmem : i ∈ lagger :: rest := hsort.perm.mem_iff.mpr (mem_finRange i)
  obtain rfl | hmem := mem_cons.mp hmem
  · exact hi hnone
  · have hlaggier := (pairwise_cons.mp hsort.sorted).1 i hmem
    unfold isLaggierCoreIdx at hlaggier
    rw [if_neg hi, if_pos hnone] at hlaggier
    cases hlaggier

theorem Observed.timeAt {i : Fin n} {f : ℚ}
    (hi : previousTimes i ≠ none) (hf : 0 < f) :
    ∃ time, timeAt previousTimes achieved (some f) i = some time ∧ 0 < time := by
  obtain ⟨time, htime⟩ := ne_none_iff_exists'.mp hi
  refine ⟨time * frequency i / f, ?_, div_pos
    (mul_pos (h.time_pos i time htime) (h.frequency_pos i)) hf⟩
  unfold FrequencyTimeBalancer.timeAt
  rw [htime, h.achieved i]
  exact Value.quot_some hf.ne'

theorem Observed.considerLimit
    (hlagger : previousTimes lagger ≠ none) {lowPriorityFrequency : Value}
    {targets : Value × Value} {limit : ℕ × Value} {f : ℚ} (hlimit : limit.2 = some f) (hf : 0 < f)
    (htarget : ∃ target, targets.1 = some target ∧ 0 < target) :
    ∃ target, (considerLimit previousTimes achieved lagginessIdx lagger lowPriorityFrequency
      targets limit).1 = some target ∧ 0 < target := by
  obtain ⟨high, hhigh, hpos⟩ := h.timeAt hlagger hf
  have hpredicted : ∀ low : Value, (low.max (some high)).lt targets.1 = true →
      ∃ target, low.max (some high) = some target ∧ 0 < target := by
    intro low hlt
    cases low with
    | none =>
      obtain ⟨target, htarget, -⟩ := htarget
      rw [htarget] at hlt
      cases hlt
    | some low => exact ⟨max low high, Value.max_some low high, lt_max_of_lt_right hpos⟩
  unfold FrequencyTimeBalancer.considerLimit
  dsimp only
  rw [hlimit, hhigh]
  cases lagginessIdx[limit.1]? with
  | none =>
    dsimp only
    split_ifs
    · exact ⟨high, rfl, hpos⟩
    · exact htarget
  | some laggiestLpIdx =>
    dsimp only
    split_ifs with hlt
    · exact hpredicted _ hlt
    · exact htarget

/-- **The target time** is positive, and the range of the frequencies is as it was. -/
theorem Observed.exists_target
    (hsort : IsArgsort previousTimes achieved lagginessIdx) {limits : List (ℕ × Value)}
    (hlimits : ∀ limit ∈ limits, ∃ f, limit.2 = some f ∧ 0 < f) (lowPriorityFrequency : Value)
    (b : FrequencyTimeBalancer) (control : Fin n → Value) :
    ∃ target cutoffFrequency, 0 < target ∧
      b.updateBalanceTargets previousTimes control achieved limits lowPriorityFrequency
          lagginessIdx = { b with targetTime := some target, cutoffFrequency } := by
  cases lagginessIdx with
  | nil =>
    obtain ⟨i, -⟩ := h.recorded
    exact absurd (hsort.perm.mem_iff.mpr (mem_finRange i)) not_mem_nil
  | cons lagger rest =>
    have hlagger := h.lagger_recorded hsort
    have hreference : previousTimes
        (b.referenceCore previousTimes control (lagger :: rest) lagger) ≠ none := by
      unfold referenceCore
      cases hfind : (lagger :: rest).find? fun i =>
          decide (previousTimes i ≠ none) && b.isUnlimited (control i) with
      | none => exact hlagger
      | some i =>
        have hi := find?_some hfind
        rw [Bool.and_eq_true, decide_eq_true_eq] at hi
        exact hi.1
    obtain ⟨time, htime⟩ := ne_none_iff_exists'.mp hreference
    have hfold : ∀ (limits : List (ℕ × Value)) (targets : Value × Value),
        (∀ limit ∈ limits, ∃ f, limit.2 = some f ∧ 0 < f) →
        (∃ target, targets.1 = some target ∧ 0 < target) →
        ∃ target, (limits.foldl (FrequencyTimeBalancer.considerLimit previousTimes achieved
          (lagger :: rest) lagger lowPriorityFrequency) targets).1 = some target ∧ 0 < target := by
      intro limits
      induction limits with
      | nil => exact fun _ _ htarget => htarget
      | cons limit limits ih =>
        intro targets hall htarget
        obtain ⟨f, hlimit, hf⟩ := hall limit mem_cons_self
        exact ih _ (fun l hl => hall l (mem_cons_of_mem _ hl))
          (h.considerLimit hlagger hlimit hf htarget)
    obtain ⟨target, htarget, hpos⟩ := hfold limits (previousTimes _, some b.minimumFrequency)
      hlimits ⟨time, htime, h.time_pos _ time htime⟩
    refine ⟨target, (limits.foldl (FrequencyTimeBalancer.considerLimit previousTimes achieved
      (lagger :: rest) lagger lowPriorityFrequency)
      (previousTimes (b.referenceCore previousTimes control (lagger :: rest) lagger),
        some b.minimumFrequency)).2, hpos, ?_⟩
    unfold updateBalanceTargets
    dsimp only
    rw [← htarget]

end

end Target

/-! ### The two loops -/

section Loops

/-- The frequencies that the first loop selects, for the cores of a list. -/
theorem foldl_selectFrequency {f : Fin n → ℚ}
    (hf : ∀ i, previousTimes i ≠ none →
      b.desiredFrequency previousTimes achieved i ≠ none ∧
        b.clampFrequency (b.desiredFrequency previousTimes achieved i) = some (f i))
    (is : List (Fin n)) (desired : Fin n → Value) (group : ℚ) :
    ∃ group', is.foldl (b.selectFrequency previousTimes achieved) (desired, some group) =
        (fun i => if i ∈ is ∧ previousTimes i ≠ none then some (f i) else desired i, some group') ∧
      group ≤ group' ∧ (∀ i ∈ is, previousTimes i ≠ none → f i ≤ group') ∧
      (group' = group ∨ ∃ i, previousTimes i ≠ none ∧ f i = group') := by
  induction is generalizing desired group with
  | nil => exact ⟨group, by simp, le_rfl, fun i hi => absurd hi not_mem_nil, .inl rfl⟩
  | cons i is ih =>
    by_cases hi : previousTimes i = none
    · have hturn : b.selectFrequency previousTimes achieved (desired, some group) i =
          (desired, some group) := if_neg fun h => h.1 hi
      obtain ⟨group', hfold, hle, hall, hmem⟩ := ih desired group
      refine ⟨group', ?_, hle, fun j hj hrecorded => ?_, hmem⟩
      · rw [foldl_cons, hturn, hfold]
        congr 1
        funext j
        by_cases hj : j = i
        · subst hj
          simp [hi]
        · simp [hj]
      · obtain rfl | hj := mem_cons.mp hj
        · exact absurd hi hrecorded
        · exact hall j hj hrecorded
    · have hturn : b.selectFrequency previousTimes achieved (desired, some group) i =
          (Function.update desired i (some (f i)), some (max group (f i))) := by
        unfold selectFrequency
        dsimp only
        rw [if_pos ⟨hi, (hf i hi).1⟩, (hf i hi).2, Value.max_some]
      obtain ⟨group', hfold, hle, hall, hmem⟩ :=
        ih (Function.update desired i (some (f i))) (max group (f i))
      refine ⟨group', ?_, (le_max_left _ _).trans hle, fun j hj hrecorded => ?_, ?_⟩
      · rw [foldl_cons, hturn, hfold]
        congr 1
        funext j
        by_cases hj : j = i
        · subst hj
          simp [hi]
        · simp [hj]
      · obtain rfl | hj := mem_cons.mp hj
        · exact (le_max_right _ _).trans hle
        · exact hall j hj hrecorded
      · obtain rfl | hmem := hmem
        · obtain hmax | hmax := max_choice group (f i)
          · exact .inl hmax
          · exact .inr ⟨i, hi, hmax.symm⟩
        · exact .inr hmem

theorem foldl_scaleFrequency {group : Value} {is : List (Fin n)} (hnodup : is.Nodup)
    (desired : Fin n → Value) :
    is.foldl (b.scaleFrequency previousTimes group) desired = fun i =>
      if i ∈ is then b.scaleFrequency previousTimes group desired i i else desired i := by
  have hother : ∀ (desired : Fin n → Value) (i j : Fin n), j ≠ i →
      b.scaleFrequency previousTimes group desired i j = desired j := by
    intro desired i j hne
    unfold scaleFrequency
    split_ifs
    · exact Function.update_of_ne hne _ _
    · rfl
    · rfl
  have hown : ∀ (desired desired' : Fin n → Value) (i : Fin n), desired i = desired' i →
      b.scaleFrequency previousTimes group desired i i =
        b.scaleFrequency previousTimes group desired' i i := by
    intro desired desired' i heq
    unfold scaleFrequency
    rw [heq]
    split_ifs <;> simp [heq]
  induction is generalizing desired with
  | nil => simp
  | cons i is ih =>
    obtain ⟨hnot, hnodup⟩ := nodup_cons.mp hnodup
    rw [foldl_cons, ih hnodup]
    funext j
    by_cases hj : j = i
    · subst hj
      simp [hnot]
    · have hsame := hother desired i j hj
      by_cases hmem : j ∈ is
      · simp only [if_pos hmem, mem_cons, hj, false_or]
        exact hown _ _ j hsame
      · simp only [if_neg hmem, mem_cons, hj, false_or]
        exact hsame

end Loops

/-! ### The frequencies -/

section Frequencies

variable {target : ℚ}

/-- The cycles of a core, for the time that it needed; a core without a recorded time has none. -/
def cycles (previousTimes : Fin n → Value) (frequency : Fin n → ℚ) (i : Fin n) : ℚ :=
  frequency i * (previousTimes i).getD 0

/-- The frequency at which a core needs the target time, within the range. -/
def selected (b : FrequencyTimeBalancer) (previousTimes : Fin n → Value) (frequency : Fin n → ℚ)
    (target : ℚ) (i : Fin n) : ℚ :=
  clamp b.minimumFrequency b.maximumFrequency (cycles previousTimes frequency i / target)

theorem Observed.cycles_pos (h : Observed previousTimes achieved frequency) {i : Fin n}
    (hi : previousTimes i ≠ none) : 0 < cycles previousTimes frequency i := by
  obtain ⟨time, htime⟩ := ne_none_iff_exists'.mp hi
  unfold cycles
  rw [htime]
  exact mul_pos (h.frequency_pos i) (h.time_pos i time htime)

theorem clampFrequency_some (b : FrequencyTimeBalancer) (x : ℚ) :
    b.clampFrequency (some x) =
      some (clamp b.minimumFrequency b.maximumFrequency x) := by
  unfold clampFrequency
  rw [Value.max_some, Value.min_some]
  rfl

/-- The cutoff does not change the frequency that a core needs. -/
theorem Observed.desiredFrequency (h : Observed previousTimes achieved frequency)
    (htarget : b.targetTime = some target) (hpos : 0 < target) {i : Fin n}
    (hi : previousTimes i ≠ none) :
    b.desiredFrequency previousTimes achieved i =
      some (cycles previousTimes frequency i / target) := by
  obtain ⟨time, htime⟩ := ne_none_iff_exists'.mp hi
  have hquot : Value.quot ((achieved i).mul (previousTimes i)) b.targetTime =
      some (cycles previousTimes frequency i / target) := by
    rw [htarget, htime, h.achieved i, cycles, htime]
    exact Value.quot_some hpos.ne'
  unfold FrequencyTimeBalancer.desiredFrequency
  dsimp only
  rw [hquot]
  split_ifs with hle
  · exact Value.min_of_le hle
  · rfl

/-- The frequencies that are at the top, as numbers. -/
def IsTop (b : FrequencyTimeBalancer) (group x : ℚ) : Prop :=
  b.isTop (some group) (some x) = true

instance (b : FrequencyTimeBalancer) (group : ℚ) : DecidablePred (b.IsTop group) := fun x =>
  inferInstanceAs (Decidable (b.isTop (some group) (some x) = true))

/-- What is above the top is at the top. -/
theorem IsTop.mono {group x y : ℚ} (h : x ≤ y) (hx : b.IsTop group x) : b.IsTop group y := by
  unfold IsTop isTop at hx ⊢
  rw [Bool.or_eq_true] at hx ⊢
  refine hx.imp (fun hgt => ?_) fun hlt => ?_
  · cases hcutoff : b.cutoffFrequency with
    | none =>
      rw [hcutoff] at hgt
      cases hgt
    | some cutoff =>
      rw [hcutoff] at hgt
      exact decide_eq_true ((of_decide_eq_true hgt).trans_le h)
  · have hstep : group - x < b.frequencyStepSize := of_decide_eq_true hlt
    exact decide_eq_true ((sub_le_sub_left h group).trans_lt hstep)

theorem isTop_self (hstep : 0 < b.frequencyStepSize) (group : ℚ) : b.IsTop group group := by
  unfold IsTop isTop
  rw [Bool.or_eq_true]
  have hzero : group - group < b.frequencyStepSize := by
    rw [sub_self]
    exact hstep
  exact .inr (decide_eq_true hzero)

theorem Observed.selected_pos (h : Observed previousTimes achieved frequency) (hpos : 0 < target)
    {i : Fin n} (hi : previousTimes i ≠ none)
    (hlt : b.selected previousTimes frequency target i < b.maximumFrequency) :
    0 < b.selected previousTimes frequency target i :=
  (div_pos (h.cycles_pos hi) hpos).trans_le (Scaling.le_clamp_of_lt hlt)

theorem scaleFrequency_eq {group : ℚ} (hgroup : group ≠ 0) (hlt : group < b.maximumFrequency)
    {desired : Fin n → Value} {i : Fin n} {x : ℚ} (hi : previousTimes i ≠ none)
    (hdesired : desired i = some x) :
    b.scaleFrequency previousTimes (some group) desired i i =
      some (raise b.minimumFrequency b.maximumFrequency group (b.IsTop group) x) := by
  unfold scaleFrequency raise
  rw [hdesired, if_pos ⟨hi, some_ne_none x⟩]
  by_cases htop : b.isTop (some group) (some x) = true
  · rw [if_pos htop, if_pos ⟨hlt, htop⟩, Function.update_self, Value.quot_some hgroup]
    exact clampFrequency_some b _
  · rw [if_neg htop, if_neg fun h => htop h.2, hdesired]

section

variable (h : Observed previousTimes achieved frequency)
include h

/-- **`get_balanced_frequencies`** raises the selected frequencies, where `group` is the largest of
them. -/
theorem Observed.getBalancedFrequencies_eq
    (hsort : IsArgsort previousTimes achieved lagginessIdx)
    (htarget : b.targetTime = some target) (hpos : 0 < target)
    (hrange : b.minimumFrequency ≤ b.maximumFrequency)
    (hunlimited : ∃ i, b.isUnlimited (control i) = true) :
    ∃ group, (∀ i, previousTimes i ≠ none →
        b.selected previousTimes frequency target i ≤ group) ∧
      (∃ i, previousTimes i ≠ none ∧ b.selected previousTimes frequency target i = group) ∧
      b.getBalancedFrequencies previousTimes control achieved lagginessIdx = fun i =>
        if previousTimes i ≠ none then
          some (raise b.minimumFrequency b.maximumFrequency group (b.IsTop group)
            (b.selected previousTimes frequency target i))
        else control i := by
  have hselect : ∀ i, previousTimes i ≠ none →
      b.desiredFrequency previousTimes achieved i ≠ none ∧
        b.clampFrequency (b.desiredFrequency previousTimes achieved i) =
          some (b.selected previousTimes frequency target i) := by
    intro i hi
    rw [h.desiredFrequency htarget hpos hi]
    exact ⟨some_ne_none _, clampFrequency_some b _⟩
  obtain ⟨group, hfold, -, hall, hmem⟩ :=
    foldl_selectFrequency hselect (List.finRange n) control b.minimumFrequency
  have hle : ∀ i, previousTimes i ≠ none →
      b.selected previousTimes frequency target i ≤ group :=
    fun i hi => hall i (mem_finRange i) hi
  have hattained : ∃ i, previousTimes i ≠ none ∧
      b.selected previousTimes frequency target i = group := by
    obtain rfl | hmem := hmem
    · obtain ⟨i, hi⟩ := h.recorded
      exact ⟨i, hi, le_antisymm (hle i hi) (le_clamp hrange)⟩
    · exact hmem
  refine ⟨group, hle, hattained, ?_⟩
  have hsome : ¬ ((List.finRange n).all fun i => !b.isUnlimited (control i)) = true := by
    obtain ⟨i, hi⟩ := hunlimited
    intro hnone
    have hlimited := all_eq_true.mp hnone i (mem_finRange i)
    rw [hi] at hlimited
    cases hlimited
  unfold getBalancedFrequencies
  rw [if_neg hsome, hfold]
  dsimp only
  by_cases hlt : group < b.maximumFrequency
  · have hgroup : group ≠ 0 := by
      obtain ⟨i, hi, hsel⟩ := hattained
      have hselpos := h.selected_pos (b := b) hpos hi (hsel.symm ▸ hlt)
      rw [hsel] at hselpos
      exact hselpos.ne'
    have hlt' : Value.lt (some group) (some b.maximumFrequency) = true := decide_eq_true hlt
    rw [if_pos hlt', foldl_scaleFrequency (hsort.perm.nodup_iff.mpr (nodup_finRange n))]
    funext i
    rw [if_pos (hsort.perm.mem_iff.mpr (mem_finRange i))]
    by_cases hi : previousTimes i = none
    · rw [if_neg (not_not.mpr hi)]
      unfold scaleFrequency
      simp [hi]
    · rw [if_pos hi]
      exact scaleFrequency_eq hgroup hlt hi (if_pos ⟨mem_finRange i, hi⟩)
  · have hge : ¬ Value.lt (some group) (some b.maximumFrequency) = true :=
      fun hlt' => hlt (of_decide_eq_true hlt')
    rw [if_neg hge]
    funext i
    by_cases hi : previousTimes i = none
    · simp [hi]
    · rw [if_pos ⟨mem_finRange i, hi⟩, if_pos hi, raise, if_neg fun h => hlt h.1]

theorem Observed.raise_mono (hpos : 0 < target)
    {group : ℚ} (hle : ∀ i, previousTimes i ≠ none →
      b.selected previousTimes frequency target i ≤ group) {i j : Fin n}
    (hi : previousTimes i ≠ none) (hj : previousTimes j ≠ none)
    (hcycles : cycles previousTimes frequency i ≤ cycles previousTimes frequency j) :
    raise b.minimumFrequency b.maximumFrequency group (b.IsTop group)
        (b.selected previousTimes frequency target i) ≤
      raise b.minimumFrequency b.maximumFrequency group (b.IsTop group)
        (b.selected previousTimes frequency target j) := by
  have hselected : b.selected previousTimes frequency target i ≤
      b.selected previousTimes frequency target j :=
    Scaling.clamp_mono (div_le_div_of_nonneg_right hcycles hpos.le)
  by_cases hlt : group < b.maximumFrequency
  · exact Scaling.raise_mono (fun _ _ => IsTop.mono)
      (h.selected_pos hpos hi ((hle i hi).trans_lt hlt)) hselected (hle j hj) clamp_le
  · rw [raise, raise, if_neg fun h => hlt h.1, if_neg fun h => hlt h.1]
    exact hselected

theorem Observed.raise_group (hpos : 0 < target)
    (hrange : b.minimumFrequency ≤ b.maximumFrequency) (hstep : 0 < b.frequencyStepSize) {i : Fin n}
    (hi : previousTimes i ≠ none) :
    raise b.minimumFrequency b.maximumFrequency
        (b.selected previousTimes frequency target i)
        (b.IsTop (b.selected previousTimes frequency target i))
        (b.selected previousTimes frequency target i) = b.maximumFrequency := by
  set group := b.selected previousTimes frequency target i with hgroup
  by_cases hlt : group < b.maximumFrequency
  · exact Scaling.raise_eq_hi hrange (h.selected_pos hpos hi hlt) hlt (isTop_self hstep group)
  · rw [raise, if_neg fun h => hlt h.1]
    exact le_antisymm clamp_le (not_lt.mp hlt)

end

/-- The frequencies of the recorded cores are in the range, one of them is the maximum, and none
with fewer cycles is higher; an unrecorded core keeps its frequency. -/
structure Fair (b : FrequencyTimeBalancer) (previousTimes control : Fin n → Value)
    (frequency : Fin n → ℚ) (result : Fin n → Value) : Prop where
  bounded : ∀ i, previousTimes i ≠ none →
    ∃ x, result i = some x ∧ b.minimumFrequency ≤ x ∧ x ≤ b.maximumFrequency
  maximum : ∃ i, previousTimes i ≠ none ∧ result i = some b.maximumFrequency
  ordered : ∀ i j s t x y, previousTimes i = some s → previousTimes j = some t →
    s * frequency i ≤ t * frequency j → result i = some x → result j = some y → x ≤ y
  unrecorded : ∀ i, previousTimes i = none → result i = control i

/-- **Frequency balancing is fair and bounded.** -/
theorem balanceFrequenciesByTime_fair (b : FrequencyTimeBalancer)
    {limits : List (ℕ × Value)} (lowPriorityFrequency : Value)
    (hrange : b.minimumFrequency ≤ b.maximumFrequency) (hstep : 0 < b.frequencyStepSize)
    (hachieved : ∀ i, achieved i = some (frequency i)) (hfrequency : ∀ i, 0 < frequency i)
    (htime : ∀ i time, previousTimes i = some time → 0 < time)
    (hrecorded : ∃ i, previousTimes i ≠ none)
    (hcontrol : ∃ i x, control i = some x ∧ b.maximumFrequency ≤ x)
    (hlimits : ∀ limit ∈ limits, ∃ f, limit.2 = some f ∧ 0 < f)
    (hsort : IsArgsort previousTimes achieved lagginessIdx) :
    b.Fair previousTimes control frequency (b.balanceFrequenciesByTime previousTimes control
      achieved limits lowPriorityFrequency lagginessIdx) := by
  have h : Observed previousTimes achieved frequency := ⟨hachieved, hfrequency, htime, hrecorded⟩
  obtain ⟨target, cutoff, hpos, htargets⟩ :=
    h.exists_target hsort hlimits lowPriorityFrequency b control
  have hunlimited : ∃ i, b.isUnlimited (control i) = true := by
    obtain ⟨i, x, hi, hx⟩ := hcontrol
    refine ⟨i, ?_⟩
    rw [hi]
    exact decide_eq_true hx
  obtain ⟨group, hle, ⟨top, htop, rfl⟩, heq⟩ :=
    h.getBalancedFrequencies_eq (b := { b with targetTime := some target, cutoffFrequency := cutoff })
      hsort rfl hpos hrange hunlimited
  unfold balanceFrequenciesByTime
  rw [htargets, heq]
  refine ⟨fun i hi => ⟨_, if_pos hi, ?_, ?_⟩, ⟨top, htop, ?_⟩, ?_, fun i hi => ?_⟩
  · exact Scaling.le_raise hrange (le_clamp hrange)
  · exact Scaling.raise_le clamp_le
  · rw [if_pos htop]
    exact congrArg some (h.raise_group
      (b := { b with targetTime := some target, cutoffFrequency := cutoff }) hpos hrange hstep htop)
  · intro i j s t x y hs ht hcycles hx hy
    have hi : previousTimes i ≠ none := hs ▸ some_ne_none s
    have hj : previousTimes j ≠ none := ht ▸ some_ne_none t
    rw [if_pos hi] at hx
    rw [if_pos hj] at hy
    rw [← Option.some.inj hx, ← Option.some.inj hy]
    refine h.raise_mono hpos hle hi hj ?_
    unfold cycles
    rw [hs, ht, mul_comm (frequency i), mul_comm (frequency j)]
    exact hcycles
  · exact if_neg (not_not.mpr hi)

/-- Three cores, one without a recorded time, and a limit for one of high priority. -/
theorem balanceFrequenciesByTime_fair_three :
    Fair { minimumFrequency := 1, maximumFrequency := 3, frequencyStepSize := 1 / 10 }
      ![some 2, none, some 1] ![some 3, some 2, some 3] ![3, 2, 3]
      (balanceFrequenciesByTime ![some 2, none, some 1] ![some 3, some 2, some 3]
        ![some 3, some 2, some 3] [(1, some 3)] (some 2) [0, 2, 1]
        { minimumFrequency := 1, maximumFrequency := 3, frequencyStepSize := 1 / 10 }) :=
  balanceFrequenciesByTime_fair _ _ (by decide +kernel) (by decide +kernel) (by decide +kernel)
    (by decide +kernel)
    (fun i time h => by
      have hall : ∀ i : Fin 3, ∀ time ∈ (![some 2, none, some 1] : Fin 3 → Value) i, 0 < time := by
        decide +kernel
      exact hall i time h)
    ⟨0, some_ne_none _⟩ ⟨0, 3, rfl, le_rfl⟩
    (fun limit h => by
      rw [mem_singleton.mp h]
      exact ⟨3, rfl, by decide +kernel⟩)
    ⟨by decide +kernel, by decide +kernel⟩

end Frequencies

end FrequencyTimeBalancer

end Geopm
