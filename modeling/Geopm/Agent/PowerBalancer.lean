import Geopm.App.CircularBuffer
import Geopm.Lib.Lts
import Geopm.Pio.Arithmetic

/-!
# `PowerBalancerImp`

The object lowers the power limit of a package until its epochs take as long as the target says.
The runtimes that are measured are collected in a vector, until it is known how many of them are
needed, and then in a circular buffer; the sample is their median.

* `PowerBalancer` : the members; `PowerBalancer.isRuntimeStable`, `isTargetMet` : the methods that
  are called with a runtime; `powerCap`, `powerLimitAdjusted`, `targetRuntime`, `powerSlack`;
* `PowerBalancer.held` : the runtimes that are held; `taken`, `stabilizes` : those that are held
  with another one, and whether they are then enough;
* `PowerBalancer.isRuntimeStable_spec` : the sample is the median of the runtimes that are held.
-/

namespace Geopm

open Pio (Value Agg)
open Prog
open List hiding get modify set

/-- The members of `PowerBalancerImp`. -/
structure PowerBalancer where
  controlLatency : ℚ
  minTrialDelta : ℚ := 1 / 8
  minNumSample : ℕ := 9
  minDuration : ℚ := 1 / 4
  runtimeFraction : ℚ := 2 / 100
  numSample : ℕ := 0
  powerCap : Value := none
  powerLimit : Value := none
  powerLimitChangeTime : ℚ := 0
  targetRuntime : Value := none
  trialDelta : ℚ := 8
  runtimeSample : Value := none
  targetMet : Bool := false
  runtimeBuffer : CircularBuffer Value := .make 0
  runtimeVec : List Value := []

namespace PowerBalancer

/-! ### The methods -/

/-- `power_cap`. -/
def setPowerCap (cap : Value) (s : PowerBalancer) : PowerBalancer :=
  { s with
    powerLimit := cap
    powerCap := cap
    runtimeBuffer := s.runtimeBuffer.clear
    targetRuntime := none }

/-- `power_limit_adjusted`, at the time `now`. -/
def powerLimitAdjusted (now : ℚ) (actualLimit : Value) (s : PowerBalancer) : PowerBalancer :=
  -- a limit that is clipped to the minimum is not lowered any more
  let s := if actualLimit.gt s.powerLimit then { s with targetMet := true } else s
  if s.powerLimit.ne actualLimit then
    { s with
      powerLimitChangeTime := now
      powerLimit := actualLimit
      runtimeBuffer := s.runtimeBuffer.clear }
  else s

def isLimitStable (now : ℚ) (s : PowerBalancer) : Bool :=
  decide (s.controlLatency < now - s.powerLimitChangeTime)

/-- A value is inserted into the buffer. -/
def insertRuntime (x : Value) : EStateM Exception PowerBalancer Unit :=
  zoom runtimeBuffer (fun b s => { s with runtimeBuffer := b }) (CircularBuffer.insert x)

def calculateRuntimeSample (s : PowerBalancer) : PowerBalancer :=
  if s.runtimeBuffer.size ≠ 0 then
    { s with runtimeSample := Agg.median.apply s.runtimeBuffer.makeVectorAll }
  else { s with runtimeSample := Agg.median.apply s.runtimeVec }

/-- The vector is moved to the buffer. -/
def moveToBuffer (numSample : ℕ) : EStateM Exception PowerBalancer Unit := do
  modify fun s =>
    { s with numSample := numSample, runtimeBuffer := s.runtimeBuffer.setCapacity numSample }
  let s ← get
  s.runtimeVec.forM insertRuntime
  modify fun s => { s with runtimeVec := [] }

/-- A runtime for the vector, which is used until enough time has passed to determine how many
samples are required in the buffer. -/
def fillVec (measuredRuntime : Value) : EStateM Exception PowerBalancer Bool := do
  modify fun s => { s with runtimeVec := s.runtimeVec ++ [measuredRuntime] }
  let s ← get
  if (Agg.sum.apply s.runtimeVec).gt (some s.minDuration) then do
    moveToBuffer (max s.runtimeVec.length s.minNumSample)
    pure (decide (s.minNumSample ≤ s.runtimeVec.length))
  else pure false

/-- A runtime for the buffer. -/
def fillBuffer (measuredRuntime : Value) : EStateM Exception PowerBalancer Bool := do
  insertRuntime measuredRuntime
  let s ← get
  pure (decide (s.runtimeBuffer.size = s.runtimeBuffer.capacity))

/-- A runtime for the vector or for the buffer. -/
def addRuntime (measuredRuntime : Value) : EStateM Exception PowerBalancer Bool := do
  let s ← get
  if s.runtimeBuffer.size = 0 then fillVec measuredRuntime else fillBuffer measuredRuntime

/-- `is_runtime_stable`, at the time `now`. -/
def isRuntimeStable (now : ℚ) (measuredRuntime : Value) : EStateM Exception PowerBalancer Bool := do
  let s ← get
  if ¬ s.isLimitStable now ∨ measuredRuntime = none then pure false
  else do
    let result ← addRuntime measuredRuntime
    modify calculateRuntimeSample
    pure result

/-- `target_runtime`. -/
def setTargetRuntime (largestRuntime : Value) (s : PowerBalancer) : PowerBalancer :=
  let target := largestRuntime.map fun x => x * (1 - s.runtimeFraction)
  { s with targetRuntime := target, targetMet := s.runtimeSample.gt target }

/-- What `is_target_met` does with a stable runtime. -/
def trial (s : PowerBalancer) : PowerBalancer :=
  if s.runtimeSample.gt s.targetRuntime then
    let limit := s.powerLimit.add (some s.trialDelta)
    { s with
      powerLimit :=
        if s.powerCap.gt s.powerLimit then if limit.gt s.powerCap then s.powerCap else limit
        else s.powerLimit
      targetMet := true }
  else
    { s with
      powerLimit := s.powerLimit.sub (some s.trialDelta)
      runtimeBuffer := s.runtimeBuffer.clear }

/-- `is_target_met`, at the time `now`. -/
def isTargetMet (now : ℚ) (measuredRuntime : Value) : EStateM Exception PowerBalancer Bool := do
  let s ← get
  if s.targetMet then pure true
  else do
    let stable ← isRuntimeStable now measuredRuntime
    if stable then modify trial else pure ()
    let s ← get
    pure s.targetMet

def powerSlack : EStateM Exception PowerBalancer Value := do
  let s ← get
  let result := s.powerCap.sub s.powerLimit
  if result = some 0 then do
    set { s with trialDelta := max (s.trialDelta / 2) s.minTrialDelta }
    pure result
  else pure result

/-! ### Medians -/

/-- The median of runtimes is the mean of two of them. -/
theorem medianOf_eq {runtimes : List ℚ} (h : runtimes ≠ []) :
    ∃ x ∈ runtimes, ∃ y ∈ runtimes, Agg.medianOf runtimes = (x + y) / 2 := by
  have hpos := length_pos_iff.mpr h
  have hlength : (runtimes.mergeSort fun a b => decide (a ≤ b)).length = runtimes.length :=
    length_mergeSort runtimes
  have hget : ∀ i, i < runtimes.length → ∃ x ∈ runtimes, runtimes.mergeSort[i]?.getD 0 = x := by
    intro i hi
    rw [← hlength] at hi
    refine ⟨runtimes.mergeSort[i], mem_mergeSort.mp (getElem_mem hi), ?_⟩
    rw [getElem?_eq_getElem hi]
    rfl
  obtain ⟨x, hx, hmid⟩ := hget (runtimes.length / 2) (by omega)
  obtain ⟨y, hy, hbefore⟩ := hget (runtimes.length / 2 - 1) (by omega)
  unfold Agg.medianOf
  dsimp only
  by_cases heven : runtimes.length % 2 = 0
  · rw [if_pos heven, hmid, hbefore]
    exact ⟨x, hx, y, hy, rfl⟩
  · rw [if_neg heven, hmid]
    exact ⟨x, hx, x, hx, (add_self_div_two x).symm⟩

/-! ### The runtimes that are held -/

/-- The runtimes that the sample is the median of. -/
def held (s : PowerBalancer) : List Value :=
  if s.runtimeBuffer.size = 0 then s.runtimeVec else s.runtimeBuffer.makeVectorAll

/-- A runtime is taken into account. -/
def accepts (now : ℚ) (measuredRuntime : Value) (s : PowerBalancer) : Bool :=
  s.isLimitStable now && measuredRuntime.isSome

/-- The runtimes that are held with one more: a full buffer loses the oldest one. -/
def taken (x : Value) (s : PowerBalancer) : List Value :=
  if s.runtimeBuffer.size = 0 then s.runtimeVec ++ [x]
  else (s.held ++ [x]).drop (s.runtimeBuffer.size + 1 - s.runtimeBuffer.capacity)

/-- A runtime that is taken into account makes the sample a stable one: there are enough of them. -/
def stabilizes (x : Value) (s : PowerBalancer) : Bool :=
  if s.runtimeBuffer.size = 0 then
    (Agg.sum.apply (s.runtimeVec ++ [x])).gt (some s.minDuration) &&
      decide (s.minNumSample ≤ s.runtimeVec.length + 1)
  else decide (s.runtimeBuffer.capacity ≤ s.runtimeBuffer.size + 1)

/-- The buffer holds what has been inserted, and the vector is used before the buffer only. -/
structure Sound (s : PowerBalancer) : Prop where
  holds : ∃ xs, s.runtimeBuffer.Holds xs
  vec : s.runtimeBuffer.size ≠ 0 → s.runtimeVec = []

/-- Nothing changed but the runtimes and their sample. -/
def SameLimit (s s' : PowerBalancer) : Prop :=
  ∃ numSample runtimeSample runtimeBuffer runtimeVec,
    s' = { s with numSample, runtimeSample, runtimeBuffer, runtimeVec }

section Spec

variable {s : PowerBalancer} {x : Value} {now : ℚ}

theorem sound_make (controlLatency minTrialDelta minDuration : ℚ) (minNumSample : ℕ) :
    Sound { controlLatency, minTrialDelta, minNumSample, minDuration } :=
  ⟨⟨[], CircularBuffer.holds_make 0⟩, fun h => absurd rfl h⟩

/-- A list of values is inserted into a buffer that has room for them. -/
theorem forM_insertRuntime (ys : List Value) (s : PowerBalancer) {xs : List Value}
    (hs : s.runtimeBuffer.Holds xs) (hpos : 0 < s.runtimeBuffer.maxSize) :
    ∃ b : CircularBuffer Value, ys.forM insertRuntime s = .ok () { s with runtimeBuffer := b } ∧
      b.Holds (xs ++ ys) ∧ b.maxSize = s.runtimeBuffer.maxSize := by
  induction ys generalizing s xs with
  | nil => exact ⟨s.runtimeBuffer, rfl, (append_nil xs).symm ▸ hs, rfl⟩
  | cons y ys ih =>
    have hmax := CircularBuffer.push_maxSize (x := y) hpos
    have hinsert : insertRuntime y s =
        .ok () { s with runtimeBuffer := s.runtimeBuffer.push hpos y } := by
      unfold insertRuntime zoom
      have hroom : ¬ s.runtimeBuffer.maxSize < 1 := by omega
      have hrun : CircularBuffer.insert y s.runtimeBuffer =
          .ok () (s.runtimeBuffer.push hpos y) := by
        unfold CircularBuffer.insert
        change (if h : s.runtimeBuffer.maxSize < 1 then _ else _ : EStateM Exception
          (CircularBuffer Value) Unit) s.runtimeBuffer = _
        rw [dif_neg hroom]
        rfl
      rw [hrun]
    obtain ⟨b, hrest, hholds, hsize⟩ := ih { s with runtimeBuffer := s.runtimeBuffer.push hpos y }
      (hs.push hpos) (hmax.symm ▸ hpos)
    refine ⟨b, ?_, ?_, hsize.trans hmax⟩
    · show (insertRuntime y >>= fun _ => ys.forM insertRuntime) s = _
      rw [bind_of_ok hinsert]
      exact hrest
    · rw [append_assoc] at hholds
      exact hholds

theorem held_of_holds {xs : List Value} (hs : s.runtimeBuffer.Holds xs)
    (hsize : s.runtimeBuffer.size ≠ 0) : s.held = xs.drop (xs.length - s.runtimeBuffer.count) := by
  rw [held, if_neg hsize, hs.makeVectorAll]

/-- A runtime for the vector. -/
theorem fillVec_spec (hs : Sound s) (hsize : s.runtimeBuffer.size = 0) :
    ∃ t, fillVec x s = .ok (stabilizes x s) t ∧ Sound t ∧ SameLimit s t ∧ held t = taken x s ∧
      (stabilizes x s = true → t.runtimeVec = []) := by
  set vec := s.runtimeVec ++ [x] with hvec
  have hlength : s.runtimeVec.length + 1 = vec.length := by simp [hvec]
  unfold taken stabilizes
  rw [if_pos hsize, if_pos hsize, ← hvec, hlength]
  show ∃ t, (ite _ _ _ : EStateM Exception PowerBalancer Bool) { s with runtimeVec := vec } = _ ∧ _
  by_cases hsum : (Agg.sum.apply vec).gt (some s.minDuration) = true
  · -- the buffer replaces the vector
    rw [if_pos hsum, hsum, Bool.true_and]
    set numSample := max vec.length s.minNumSample with hnum
    obtain ⟨hempty, hcap⟩ : (s.runtimeBuffer.setCapacity numSample).Holds [] ∧
        (s.runtimeBuffer.setCapacity numSample).maxSize = numSample :=
      CircularBuffer.holds_setCapacity hsize
    obtain ⟨b, hinsert, hb, hmax⟩ := forM_insertRuntime vec
      { s with
        runtimeVec := vec
        numSample := numSample
        runtimeBuffer := s.runtimeBuffer.setCapacity numSample } hempty (by dsimp only; omega)
    rw [nil_append] at hb
    have hcount : b.count = vec.length := by
      rw [hb.count_eq, hmax]
      dsimp only
      omega
    have hbsize : b.size ≠ 0 := by
      show b.count ≠ 0
      omega
    refine ⟨{ s with numSample := numSample, runtimeBuffer := b, runtimeVec := [] }, ?_,
      ⟨⟨vec, hb⟩, fun _ => rfl⟩, ⟨_, _, _, _, rfl⟩, ?_, fun _ => rfl⟩
    · have hmove : moveToBuffer numSample { s with runtimeVec := vec } =
          .ok () { s with numSample := numSample, runtimeBuffer := b, runtimeVec := [] } := by
        show (vec.forM insertRuntime >>= fun _ => _) _ = _
        rw [bind_of_ok hinsert]
        rfl
      exact (bind_of_ok hmove).trans rfl
    · rw [held_of_holds hb hbsize]
      dsimp only
      rw [hcount, Nat.sub_self, drop_zero]
  · have hshort : (Agg.sum.apply vec).gt (some s.minDuration) = false := by simpa using hsum
    rw [if_neg hsum, hshort, Bool.false_and]
    exact ⟨{ s with runtimeVec := vec }, rfl, ⟨hs.holds, fun h => absurd hsize h⟩,
      ⟨_, _, _, _, rfl⟩, if_pos hsize, fun h => absurd h Bool.false_ne_true⟩

theorem fillBuffer_spec (hs : Sound s) (hsize : s.runtimeBuffer.size ≠ 0) :
    ∃ t, fillBuffer x s = .ok (stabilizes x s) t ∧ Sound t ∧ SameLimit s t ∧ held t = taken x s ∧
      (stabilizes x s = true → t.runtimeVec = []) := by
  obtain ⟨⟨xs, hholds⟩, hvec⟩ := hs
  have hle := s.runtimeBuffer.count_le
  have hne : s.runtimeBuffer.count ≠ 0 := hsize
  obtain ⟨b, hinsert, hb, hmax⟩ := forM_insertRuntime [x] s hholds (by omega)
  have hinsert' : insertRuntime x s = .ok () { s with runtimeBuffer := b } := by
    rw [← hinsert]
    show _ = (insertRuntime x >>= fun _ => pure ()) s
    rw [bind_pure]
  have hcount := hholds.count_eq
  have hbcount : b.count = min (s.runtimeBuffer.count + 1) s.runtimeBuffer.maxSize := by
    rw [hb.count_eq, hmax, length_append, length_singleton]
    omega
  have hbsize : b.size ≠ 0 := by
    show b.count ≠ 0
    omega
  refine ⟨{ s with runtimeBuffer := b }, ?_, ⟨⟨_, hb⟩, fun _ => hvec hsize⟩, ⟨_, _, _, _, rfl⟩, ?_,
    fun _ => hvec hsize⟩
  · show (insertRuntime x >>= fun _ => _) s = _
    rw [bind_of_ok hinsert', stabilizes, if_neg hsize]
    have hfull : decide (b.size = b.capacity) =
        decide (s.runtimeBuffer.capacity ≤ s.runtimeBuffer.size + 1) := by
      rw [decide_eq_decide]
      show b.count = b.maxSize ↔ s.runtimeBuffer.maxSize ≤ s.runtimeBuffer.count + 1
      omega
    rw [← hfull]
    rfl
  · rw [taken, if_neg hsize, held_of_holds hholds hsize, held_of_holds hb hbsize,
      ← List.drop_append_of_le_length (by omega), drop_drop]
    refine congrArg (List.drop · (xs ++ [x])) ?_
    show (xs ++ [x]).length - b.count =
      xs.length - s.runtimeBuffer.count + (s.runtimeBuffer.count + 1 - s.runtimeBuffer.maxSize)
    rw [length_append, length_singleton]
    omega

theorem mem_taken (hs : Sound s) : x ∈ taken x s := by
  by_cases hsize : s.runtimeBuffer.size = 0
  · rw [taken, if_pos hsize]
    simp
  · obtain ⟨xs, hholds⟩ := hs.holds
    have hle := s.runtimeBuffer.count_le
    have hcount := hholds.count_eq
    have hne : s.runtimeBuffer.count ≠ 0 := hsize
    rw [taken, if_neg hsize, held_of_holds hholds hsize, List.drop_append_of_le_length]
    · simp
    · show s.runtimeBuffer.count + 1 - s.runtimeBuffer.maxSize ≤
        (xs.drop (xs.length - s.runtimeBuffer.count)).length
      rw [length_drop]
      omega

theorem exists_median_taken (hs : Sound s) (h : accepts now x s = true) :
    ∃ runtime, Agg.median.apply (taken x s) = some runtime := by
  unfold accepts at h
  rw [Bool.and_eq_true, Option.isSome_iff_exists] at h
  obtain ⟨runtime, rfl⟩ := h.2
  have hmem : runtime ∈ Agg.nanFilter (taken (some runtime) s) :=
    mem_filterMap.mpr ⟨some runtime, mem_taken hs, rfl⟩
  exact ⟨_, if_neg (ne_nil_of_mem hmem)⟩

theorem calculateRuntimeSample_eq (s : PowerBalancer) :
    calculateRuntimeSample s = { s with runtimeSample := Agg.median.apply s.held } := by
  unfold calculateRuntimeSample held
  split_ifs with h h' <;> first | rfl | exact absurd h' h

/-- **`is_runtime_stable`** takes the runtime, and the sample is the median of what is held. -/
theorem isRuntimeStable_spec (hs : Sound s) (haccepts : accepts now x s = true) :
    ∃ s', isRuntimeStable now x s = .ok (stabilizes x s) s' ∧ Sound s' ∧ SameLimit s s' ∧
      held s' = taken x s ∧ s'.runtimeSample = Agg.median.apply (taken x s) ∧
      (stabilizes x s = true → s'.runtimeVec = []) := by
  unfold accepts at haccepts
  rw [Bool.and_eq_true, Option.isSome_iff_ne_none] at haccepts
  have hgo : ¬ (¬ s.isLimitStable now = true ∨ x = none) :=
    not_or.mpr ⟨not_not.mpr haccepts.1, haccepts.2⟩
  have hadd : ∃ t, addRuntime x s = .ok (stabilizes x s) t ∧ Sound t ∧ SameLimit s t ∧
      held t = taken x s ∧ (stabilizes x s = true → t.runtimeVec = []) := by
    unfold addRuntime
    change ∃ t, (if s.runtimeBuffer.size = 0 then _ else _ : EStateM Exception PowerBalancer Bool)
      s = _ ∧ _
    split_ifs with hsize
    · exact fillVec_spec hs hsize
    · exact fillBuffer_spec hs hsize
  obtain ⟨t, hrun, ht, ⟨n, r, b, v, hsame⟩, hheld, hvec⟩ := hadd
  refine ⟨calculateRuntimeSample t, ?_, ?_⟩
  · unfold isRuntimeStable
    change (if ¬ s.isLimitStable now = true ∨ x = none then _ else _ : EStateM Exception
      PowerBalancer Bool) s = _
    rw [if_neg hgo]
    exact (bind_of_ok hrun).trans rfl
  · rw [calculateRuntimeSample_eq, hheld]
    refine ⟨⟨ht.holds, ht.vec⟩, ⟨n, Agg.median.apply (taken x s), b, v, ?_⟩, hheld, rfl, hvec⟩
    rw [hsame]

theorem isRuntimeStable_of_not_accepts (h : accepts now x s = false) :
    isRuntimeStable now x s = .ok false s := by
  have hstop : ¬ s.isLimitStable now = true ∨ x = none := by
    unfold accepts at h
    cases x with
    | none => exact .inr rfl
    | some x => exact .inl (by simpa using h)
  unfold isRuntimeStable
  change (if ¬ s.isLimitStable now = true ∨ x = none then _ else _ : EStateM Exception
    PowerBalancer Bool) s = _
  rw [if_pos hstop]
  rfl

/-- What `is_target_met` does: nothing, when the target is met or the runtime is not taken into
account; else the limit is changed when the sample is stable. -/
theorem isTargetMet_spec (now : ℚ) (x : Value) (hs : Sound s) :
    ∃ s', isTargetMet now x s = .ok s'.targetMet s' ∧
      ((s' = s ∧ (s.targetMet = true ∨ accepts now x s = false)) ∨
        s.targetMet = false ∧ accepts now x s = true ∧
        ∃ t, Sound t ∧ SameLimit s t ∧ held t = taken x s ∧
          t.runtimeSample = Agg.median.apply (taken x s) ∧
          (stabilizes x s = true → t.runtimeVec = []) ∧
          s' = if stabilizes x s then trial t else t) := by
  unfold isTargetMet
  change ∃ s', (if s.targetMet = true then _ else _ : EStateM Exception PowerBalancer Bool) s = _ ∧ _
  by_cases hmet : s.targetMet = true
  · rw [if_pos hmet]
    exact ⟨s, congrArg (EStateM.Result.ok · s) hmet.symm, .inl ⟨rfl, .inl hmet⟩⟩
  rw [if_neg hmet]
  have hunmet : s.targetMet = false := by simpa using hmet
  cases haccepts : accepts now x s with
  | false =>
    refine ⟨s, ?_, .inl ⟨rfl, .inr rfl⟩⟩
    exact (bind_of_ok (isRuntimeStable_of_not_accepts haccepts)).trans rfl
  | true =>
    obtain ⟨t, hrun, ht, hsame, hheld, hsample, hvec⟩ := isRuntimeStable_spec hs haccepts
    refine ⟨if stabilizes x s then trial t else t, ?_, .inr ⟨hunmet, rfl, t, ht, hsame, hheld,
      hsample, hvec, rfl⟩⟩
    refine (bind_of_ok hrun).trans ?_
    cases stabilizes x s <;> rfl

/-! ### The buffer stays sound -/

theorem trial_cases (t : PowerBalancer) :
    (∃ powerLimit, trial t = { t with powerLimit, targetMet := true }) ∨
      trial t = { t with
        powerLimit := t.powerLimit.sub (some t.trialDelta)
        runtimeBuffer := t.runtimeBuffer.clear } := by
  unfold trial
  by_cases hgt : t.runtimeSample.gt t.targetRuntime = true
  · rw [if_pos hgt]
    exact .inl ⟨_, rfl⟩
  · rw [if_neg hgt]
    exact .inr rfl

theorem powerSlack_eq (s : PowerBalancer) :
    ∃ trialDelta, powerSlack s = .ok (s.powerCap.sub s.powerLimit) { s with trialDelta } := by
  unfold powerSlack
  change ∃ trialDelta, (if s.powerCap.sub s.powerLimit = some 0 then _ else _ : EStateM Exception
    PowerBalancer Value) s = _
  by_cases hzero : s.powerCap.sub s.powerLimit = some 0
  · rw [if_pos hzero]
    exact ⟨_, rfl⟩
  · rw [if_neg hzero]
    exact ⟨s.trialDelta, rfl⟩

theorem powerLimitAdjusted_cases (now : ℚ) (actualLimit : Value) (s : PowerBalancer) :
    (∃ targetMet, s.powerLimit.ne actualLimit = false ∧
      powerLimitAdjusted now actualLimit s = { s with targetMet }) ∨
    ∃ targetMet, s.powerLimit.ne actualLimit = true ∧
      powerLimitAdjusted now actualLimit s = { s with
        targetMet
        powerLimitChangeTime := now
        powerLimit := actualLimit
        runtimeBuffer := s.runtimeBuffer.clear } := by
  unfold powerLimitAdjusted
  dsimp only
  by_cases hgt : actualLimit.gt s.powerLimit = true
  · rw [if_pos hgt]
    cases hne : s.powerLimit.ne actualLimit with
    | false => exact .inl ⟨true, rfl, if_neg Bool.false_ne_true⟩
    | true => exact .inr ⟨true, rfl, if_pos rfl⟩
  · rw [if_neg hgt]
    cases hne : s.powerLimit.ne actualLimit with
    | false => exact .inl ⟨s.targetMet, rfl, if_neg Bool.false_ne_true⟩
    | true => exact .inr ⟨s.targetMet, rfl, if_pos rfl⟩

theorem sound_setPowerCap (s : PowerBalancer) (cap : Value) : Sound (setPowerCap cap s) :=
  ⟨⟨[], CircularBuffer.holds_clear _⟩, fun h => absurd rfl h⟩

theorem Sound.powerLimitAdjusted (hs : Sound s) (actualLimit : Value) :
    Sound (powerLimitAdjusted now actualLimit s) := by
  obtain ⟨targetMet, -, heq⟩ | ⟨targetMet, -, heq⟩ := powerLimitAdjusted_cases now actualLimit s
  · rw [heq]
    exact ⟨hs.holds, hs.vec⟩
  · rw [heq]
    exact ⟨⟨[], CircularBuffer.holds_clear _⟩, fun h => absurd rfl h⟩

variable {s' : PowerBalancer}

/-- What `is_runtime_stable` has returned. -/
theorem isRuntimeStable_eq_ok (hs : Sound s) {result : Bool}
    (h : isRuntimeStable now x s = .ok result s') :
    Sound s' ∧ result = (accepts now x s && stabilizes x s) ∧
      (accepts now x s = true → s'.runtimeSample = Agg.median.apply (taken x s)) := by
  cases haccepts : accepts now x s with
  | false =>
    rw [isRuntimeStable_of_not_accepts haccepts] at h
    cases h
    exact ⟨hs, rfl, fun h => absurd h Bool.false_ne_true⟩
  | true =>
    obtain ⟨t, ht, hsound, -, -, hsample, -⟩ := isRuntimeStable_spec hs haccepts
    rw [ht] at h
    injection h with hresult hstate
    subst hstate
    exact ⟨hsound, hresult.symm, fun _ => hsample⟩

theorem Sound.isTargetMet (hs : Sound s) {result : Bool}
    (h : isTargetMet now x s = .ok result s') : Sound s' := by
  obtain ⟨t', ht', hcases⟩ := isTargetMet_spec now x hs
  rw [ht'] at h
  injection h with _ hstate
  subst hstate
  obtain ⟨rfl, -⟩ | ⟨-, -, t, ht, -, -, -, hvec, rfl⟩ := hcases
  · exact hs
  cases hstable : stabilizes x s with
  | false => exact ht
  | true =>
    rw [if_pos rfl]
    obtain ⟨limit, htrial⟩ | htrial := trial_cases t
    · rw [htrial]
      exact ⟨ht.holds, ht.vec⟩
    · rw [htrial]
      exact ⟨⟨[], CircularBuffer.holds_clear _⟩, fun _ => hvec hstable⟩

theorem Sound.powerSlack (hs : Sound s) {result : Value}
    (h : powerSlack s = .ok result s') : Sound s' := by
  obtain ⟨trialDelta, heq⟩ := powerSlack_eq s
  rw [heq] at h
  cases h
  exact ⟨hs.holds, hs.vec⟩

end Spec

end PowerBalancer

end Geopm
