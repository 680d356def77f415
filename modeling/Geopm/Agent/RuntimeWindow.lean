import Geopm.Agent.PowerBalancer

/-!
# Runtimes of the current limit

Whether the runtimes that the sample is the median of were measured under the current limit.  A new
limit clears the buffer, but not the vector, and a limit that is raised by `is_target_met` clears
neither.

* `Call`, `Monitor` : the calls of a power balancer; what has been taken into account since the
  limit or the cap has changed last;
* `Monitor.Right` : a sample that is stable, or that lowers the limit, is the median of such
  runtimes;
* `Monitor.Clean` : no call changes the limit while the vector is in use, and none takes a runtime
  into account after the limit has been raised;
* `Current` : what is held then belongs to the current limit; `Current.step` : a clean call keeps
  it;
* `right_of_clean` : in runs whose calls are clean, the samples are right.
-/

namespace Geopm

open Pio (Value Agg)
open Prog
open List hiding modify

namespace PowerBalancer

/-- The calls of a power balancer. -/
inductive Call where
  | powerCap (cap : Value)
  | powerLimitAdjusted (actualLimit : Value)
  | isRuntimeStable (measuredRuntime : Value)
  | targetRuntime (largestRuntime : Value)
  | isTargetMet (measuredRuntime : Value)
  | powerSlack

/-- A call at the time `now`, and what it returns. -/
def Call.perform (now : ℚ) : Call → EStateM Exception PowerBalancer (Option Bool)
  | .powerCap cap => do modify (setPowerCap cap); pure none
  | .powerLimitAdjusted actualLimit => do
    modify (PowerBalancer.powerLimitAdjusted now actualLimit); pure none
  | .isRuntimeStable measuredRuntime => do
    let result ← PowerBalancer.isRuntimeStable now measuredRuntime; pure (some result)
  | .targetRuntime largestRuntime => do modify (setTargetRuntime largestRuntime); pure none
  | .isTargetMet measuredRuntime => do
    let result ← PowerBalancer.isTargetMet now measuredRuntime; pure (some result)
  | .powerSlack => do let _ ← PowerBalancer.powerSlack; pure none

/-- The runtime that a call takes into account. -/
def Call.accepted (now : ℚ) (s : PowerBalancer) : Call → List Value
  | .isRuntimeStable x => if accepts now x s then [x] else []
  | .isTargetMet x => if !s.targetMet && accepts now x s then [x] else []
  | _ => []

/-- The balancer, the runtimes that have been taken into account since the limit or the cap has
changed last, and whether `is_target_met` has raised the limit since the buffer has been cleared. -/
structure Monitor where
  balancer : PowerBalancer
  since : List Value := []
  raised : Bool := false

/-- The sample is the median of the last of the runtimes. -/
def IsMedian (s : PowerBalancer) (runtimes : List Value) : Prop :=
  ∃ window, window ≠ [] ∧ window <:+ runtimes ∧ s.runtimeSample = Agg.median.apply window

namespace Monitor

variable (m : Monitor)

/-- The runtimes of the current limit, with that of the call. -/
def passed (now : ℚ) (call : Call) : List Value := m.since ++ call.accepted now m.balancer

/-- The call has led to a balancer with the same limit and cap. -/
def Unchanged (s : PowerBalancer) : Prop :=
  s.powerLimit = m.balancer.powerLimit ∧ s.powerCap = m.balancer.powerCap

instance (s : PowerBalancer) : Decidable (m.Unchanged s) := instDecidableAnd

/-- What is recorded after a call that has led to the balancer `s`. -/
def after (now : ℚ) (call : Call) (s : PowerBalancer) : Monitor where
  balancer := s
  since := if m.Unchanged s then m.passed now call else []
  raised :=
    match call with
    | .powerCap _ => false
    | .powerLimitAdjusted actualLimit => m.raised && !m.balancer.powerLimit.ne actualLimit
    | .isTargetMet _ => if m.Unchanged s then m.raised else s.targetMet
    | _ => m.raised

/-- A sample that is stable, and one on the basis of which the limit is lowered, is the median of
runtimes of the current limit. -/
def Right (now : ℚ) (call : Call) : Prop :=
  ∀ r s, call.perform now m.balancer = .ok r s →
    (∀ x, call = .isRuntimeStable x → r = some true → IsMedian s (m.passed now call)) ∧
      ∀ x, call = .isTargetMet x → m.balancer.powerLimit.gt s.powerLimit = true →
        IsMedian s (m.passed now call)

/-- The limit and the cap change only while the vector is empty, and no runtime is taken into
account after the limit has been raised. -/
def Clean (now : ℚ) : Call → Prop
  | .powerCap cap =>
    ¬ (cap = m.balancer.powerLimit ∧ cap = m.balancer.powerCap) → m.balancer.runtimeVec = []
  | .powerLimitAdjusted actualLimit =>
    actualLimit ≠ m.balancer.powerLimit → m.balancer.runtimeVec = []
  | .isRuntimeStable x => accepts now x m.balancer = true → m.raised = false
  | .isTargetMet x =>
    m.balancer.targetMet = false → accepts now x m.balancer = true → m.raised = false
  | _ => True

end Monitor

/-- A call at its time. -/
def Monitor.next (m : Monitor) (l : ℚ × Call) : Option Monitor :=
  match l.2.perform l.1 m.balancer with
  | .ok _ s => some (m.after l.1 l.2 s)
  | .error _ _ => none

/-- The calls of a balancer, with their times. -/
def calls : Lts Monitor (ℚ × Call) := .ofNext Monitor.next

/-! ### One call -/

/-- What is held is the last of the runtimes of the current limit, but after the limit has been
raised; then the vector is empty. -/
structure Current (m : Monitor) : Prop where
  sound : Sound m.balancer
  held : m.raised = false → m.balancer.held <:+ m.since
  vec : m.raised = true → m.balancer.runtimeVec = []

section Steps

variable {m : Monitor} {x : Value} {now : ℚ} {s t : PowerBalancer} {r : Option Bool} {call : Call}

/-- A call that has been made has returned. -/
theorem perform_of_step {m' : Monitor} (h : calls.step m (now, call) m') :
    ∃ r s, call.perform now m.balancer = .ok r s ∧ m' = m.after now call s := by
  change m.next (now, call) = some m' at h
  unfold Monitor.next at h
  dsimp only at h
  cases hrun : call.perform now m.balancer with
  | ok r s =>
    rw [hrun] at h
    cases h
    exact ⟨r, s, rfl, rfl⟩
  | error e s =>
    rw [hrun] at h
    cases h

theorem taken_suffix {runtimes : List Value} (h : s.held <:+ runtimes) :
    taken x s <:+ runtimes ++ [x] := by
  have happ : s.held ++ [x] <:+ runtimes ++ [x] := by
    obtain ⟨front, rfl⟩ := h
    exact ⟨front, (append_assoc _ _ _).symm⟩
  by_cases hsize : s.runtimeBuffer.size = 0
  · rw [PowerBalancer.held, if_pos hsize] at happ
    rw [taken, if_pos hsize]
    exact happ
  · rw [taken, if_neg hsize]
    exact (drop_suffix _ _).trans happ

theorem Current.vec_suffix (h : Current m) : m.balancer.runtimeVec <:+ m.since := by
  by_cases hsize : m.balancer.runtimeBuffer.size = 0
  · cases hraised : m.raised with
    | true =>
      rw [h.vec hraised]
      exact nil_suffix
    | false =>
      have hheld := h.held hraised
      rw [PowerBalancer.held, if_pos hsize] at hheld
      exact hheld
  · rw [h.sound.vec hsize]
    exact nil_suffix

theorem Current.kept (h : Current m) (hsound : Sound s)
    (hsame : m.Unchanged s) (hheld : s.held = m.balancer.held)
    (hvec : s.runtimeVec = m.balancer.runtimeVec) (hpassed : m.passed now call = m.since)
    (hraised : (m.after now call s).raised = m.raised) : Current (m.after now call s) := by
  refine ⟨hsound, fun hfalse => ?_, fun htrue => ?_⟩
  · show s.held <:+ if m.Unchanged s then m.passed now call else []
    rw [if_pos hsame, hpassed, hheld]
    exact h.held (hraised.symm.trans hfalse)
  · exact hvec.trans (h.vec (hraised.symm.trans htrue))

theorem Current.cleared (h : Current m) (hclear : s.runtimeBuffer.size = 0)
    (hholds : ∃ xs, s.runtimeBuffer.Holds xs) (hvec : s.runtimeVec = m.balancer.runtimeVec)
    (hpassed : m.passed now call = m.since) (hraised : (m.after now call s).raised = false)
    (hclean : ¬ m.Unchanged s → m.balancer.runtimeVec = []) :
    Current (m.after now call s) := by
  refine ⟨⟨hholds, fun hsize => absurd hclear hsize⟩, fun _ => ?_, fun htrue => ?_⟩
  · show s.held <:+ if m.Unchanged s then m.passed now call else []
    rw [PowerBalancer.held, if_pos hclear, hvec, hpassed]
    by_cases hsame : m.Unchanged s
    · rw [if_pos hsame]
      exact h.vec_suffix
    · rw [if_neg hsame]
      exact suffix_nil.mpr (hclean hsame)
  · rw [hraised] at htrue
    cases htrue

theorem Current.taken (call : Call) (h : Current m) (hsound : Sound s) (hraised : m.raised = false)
    (hsame : m.Unchanged s) (hheld : s.held = PowerBalancer.taken x m.balancer)
    (hpassed : m.passed now call = m.since ++ [x])
    (hafter : (m.after now call s).raised = m.raised) : Current (m.after now call s) := by
  refine ⟨hsound, fun _ => ?_, fun htrue => ?_⟩
  · show s.held <:+ if m.Unchanged s then m.passed now call else []
    rw [if_pos hsame, hpassed, hheld]
    exact taken_suffix (h.held hraised)
  · rw [hafter, hraised] at htrue
    cases htrue

theorem SameLimit.unchanged (h : SameLimit m.balancer s) : m.Unchanged s := by
  obtain ⟨_, _, _, _, rfl⟩ := h
  exact ⟨rfl, rfl⟩

theorem Current.powerCap {cap : Value} (h : Current m) (hclean : m.Clean now (.powerCap cap)) :
    Current (m.after now (.powerCap cap) (setPowerCap cap m.balancer)) :=
  h.cleared rfl ⟨[], CircularBuffer.holds_clear _⟩ rfl (append_nil _) rfl hclean

theorem Current.powerLimitAdjusted {actualLimit : Value} (h : Current m)
    (hclean : m.Clean now (.powerLimitAdjusted actualLimit)) :
    Current (m.after now (.powerLimitAdjusted actualLimit)
      (PowerBalancer.powerLimitAdjusted now actualLimit m.balancer)) := by
  obtain ⟨targetMet, hne, hs⟩ | ⟨targetMet, hne, hs⟩ :=
    powerLimitAdjusted_cases now actualLimit m.balancer
  · rw [hs]
    refine h.kept ⟨h.sound.holds, h.sound.vec⟩ ⟨rfl, rfl⟩ rfl rfl (append_nil _) ?_
    show (m.raised && !m.balancer.powerLimit.ne actualLimit) = m.raised
    simp [hne]
  · rw [hs]
    refine h.cleared rfl ⟨[], CircularBuffer.holds_clear _⟩ rfl (append_nil _) ?_ ?_
    · show (m.raised && !m.balancer.powerLimit.ne actualLimit) = false
      simp [hne]
    · intro hchanged
      exact hclean fun hsame => hchanged ⟨hsame, rfl⟩

theorem Current.isRuntimeStable (h : Current m) (hclean : m.Clean now (.isRuntimeStable x))
    {result : Bool} (hrun : PowerBalancer.isRuntimeStable now x m.balancer = .ok result s) :
    Current (m.after now (.isRuntimeStable x) s) := by
  cases haccepts : accepts now x m.balancer with
  | false =>
    rw [isRuntimeStable_of_not_accepts haccepts] at hrun
    cases hrun
    refine h.kept h.sound ⟨rfl, rfl⟩ rfl rfl ?_ rfl
    simp [Monitor.passed, Call.accepted, haccepts]
  | true =>
    obtain ⟨t, ht, hsound, hsame, hheld, -, -⟩ := isRuntimeStable_spec h.sound haccepts
    rw [ht] at hrun
    cases hrun
    refine h.taken _ hsound (hclean haccepts) hsame.unchanged hheld ?_ rfl
    simp [Monitor.passed, Call.accepted, haccepts]

theorem Current.isTargetMet (h : Current m) (hclean : m.Clean now (.isTargetMet x))
    {result : Bool} (hrun : PowerBalancer.isTargetMet now x m.balancer = .ok result s) :
    Current (m.after now (.isTargetMet x) s) := by
  obtain ⟨s', hs', hcases⟩ := isTargetMet_spec now x h.sound
  rw [hs'] at hrun
  cases hrun
  obtain ⟨rfl, hidle⟩ | ⟨hunmet, haccepts, t, hsound, hsame, hheld, -, hvec, rfl⟩ := hcases
  · refine h.kept h.sound ⟨rfl, rfl⟩ rfl rfl ?_ (if_pos ⟨rfl, rfl⟩)
    obtain hmet | hnot := hidle
    · simp [Monitor.passed, Call.accepted, hmet]
    · simp [Monitor.passed, Call.accepted, hnot]
  have hraised := hclean hunmet haccepts
  have hpassed : m.passed now (.isTargetMet x) = m.since ++ [x] := by
    simp [Monitor.passed, Call.accepted, hunmet, haccepts]
  have htaken := h.taken (.isTargetMet x) hsound hraised hsame.unchanged hheld hpassed
    (if_pos hsame.unchanged)
  cases hstable : stabilizes x m.balancer with
  | false => exact htaken
  | true =>
    rw [if_pos rfl]
    have hempty := hvec hstable
    obtain ⟨limit, htrial⟩ | htrial := trial_cases t
    · -- the limit has been raised, or it is at the cap
      rw [htrial]
      by_cases hsame' : m.Unchanged { t with powerLimit := limit, targetMet := true }
      · exact h.taken _ ⟨hsound.holds, hsound.vec⟩ hraised hsame' hheld hpassed
          (if_pos hsame')
      · refine ⟨⟨hsound.holds, hsound.vec⟩, fun hfalse => ?_, fun _ => hempty⟩
        exact absurd ((if_neg hsame').symm.trans hfalse) Bool.true_eq_false.mp
    · -- the limit has been lowered, and nothing is held
      rw [htrial]
      refine ⟨⟨⟨[], CircularBuffer.holds_clear _⟩, fun _ => hempty⟩, fun _ => ?_, fun _ => hempty⟩
      show (if (0 : ℕ) = 0 then t.runtimeVec else _) <:+ _
      rw [if_pos rfl, hempty]
      exact nil_suffix

/-- **A clean call keeps the samples current.** -/
theorem Current.step (h : Current m) {l : ℚ × Call} {m' : Monitor}
    (hclean : m.Clean l.1 l.2) (hstep : calls.step m l m') : Current m' := by
  obtain ⟨now, call⟩ := l
  obtain ⟨r, s, hrun, rfl⟩ := perform_of_step hstep
  cases call with
  | powerCap cap =>
    cases hrun
    exact h.powerCap hclean
  | powerLimitAdjusted actualLimit =>
    cases hrun
    exact h.powerLimitAdjusted hclean
  | isRuntimeStable x =>
    obtain ⟨result, t, ht, hpure⟩ := exists_of_bind_eq_ok hrun
    cases hpure
    exact h.isRuntimeStable hclean ht
  | targetRuntime largestRuntime =>
    cases hrun
    exact h.kept ⟨h.sound.holds, h.sound.vec⟩ ⟨rfl, rfl⟩ rfl rfl (append_nil _) rfl
  | isTargetMet x =>
    obtain ⟨result, t, ht, hpure⟩ := exists_of_bind_eq_ok hrun
    cases hpure
    exact h.isTargetMet hclean ht
  | powerSlack =>
    obtain ⟨result, t, ht, hpure⟩ := exists_of_bind_eq_ok hrun
    cases hpure
    obtain ⟨trialDelta, hslack⟩ := powerSlack_eq m.balancer
    rw [hslack] at ht
    cases ht
    exact h.kept ⟨h.sound.holds, h.sound.vec⟩ ⟨rfl, rfl⟩ rfl rfl (append_nil _) rfl

theorem Current.right (h : Current m) (hclean : m.Clean now call) :
    m.Right now call := by
  intro r s hrun
  refine ⟨?_, ?_⟩
  · rintro x rfl rfl
    obtain ⟨result, t, ht, hpure⟩ := exists_of_bind_eq_ok hrun
    cases hpure
    cases haccepts : accepts now x m.balancer with
    | false =>
      rw [isRuntimeStable_of_not_accepts haccepts] at ht
      cases ht
    | true =>
      obtain ⟨t', ht', -, -, -, hsample, -⟩ := isRuntimeStable_spec h.sound haccepts
      rw [ht'] at ht
      injection ht with _ hstate
      subst hstate
      refine ⟨_, ne_nil_of_mem (mem_taken h.sound), ?_, hsample⟩
      simpa [Monitor.passed, Call.accepted, haccepts] using
        taken_suffix (x := x) (h.held (hclean haccepts))
  · rintro x rfl hlower
    obtain ⟨result, t, ht, hpure⟩ := exists_of_bind_eq_ok hrun
    cases hpure
    obtain ⟨s', hs', hcases⟩ := isTargetMet_spec now x h.sound
    rw [hs'] at ht
    cases ht
    obtain ⟨rfl, -⟩ | ⟨hunmet, haccepts, t, -, ⟨_, _, _, _, hsame⟩, -, hsample, -, rfl⟩ := hcases
    · rw [Pio.Value.gt_self] at hlower
      cases hlower
    have hwindow : PowerBalancer.taken x m.balancer <:+ m.passed now (.isTargetMet x) := by
      simpa [Monitor.passed, Call.accepted, hunmet, haccepts] using
        taken_suffix (x := x) (h.held (hclean hunmet haccepts))
    refine ⟨_, ne_nil_of_mem (mem_taken h.sound), hwindow, ?_⟩
    cases hstable : stabilizes x m.balancer with
    | false => exact hsample
    | true =>
      rw [if_pos rfl]
      obtain ⟨limit, htrial⟩ | htrial := trial_cases t
      · rw [htrial]
        exact hsample
      · rw [htrial]
        exact hsample

end Steps

/-- A balancer that has just been made. -/
def Monitor.start (controlLatency minTrialDelta minDuration : ℚ) (minNumSample : ℕ) : Monitor where
  balancer := { controlLatency, minTrialDelta, minNumSample, minDuration }

theorem current_start (controlLatency minTrialDelta minDuration : ℚ) (minNumSample : ℕ) :
    Current (.start controlLatency minTrialDelta minDuration minNumSample) :=
  ⟨sound_make .., fun _ => suffix_rfl, fun h => absurd h Bool.false_ne_true⟩

/-- **Runtime samples belong to the current limit**, in runs of clean calls. -/
theorem right_of_clean (controlLatency minTrialDelta minDuration : ℚ) (minNumSample : ℕ)
    {m : Monitor} {now : ℚ} {call : Call}
    (hrun : calls.ReachableIf (fun m l => m.Clean l.1 l.2)
      (.start controlLatency minTrialDelta minDuration minNumSample) m)
    (hclean : m.Clean now call) : m.Right now call :=
  (hrun.invariant (current_start ..) fun _ _ _ hm hl hstep => hm.step hl hstep).right hclean

theorem right_of_clean_one :
    let m := (Monitor.start (1 / 200) (1 / 8) (1 / 4) 1).after 0 (.powerCap (some 100))
      (setPowerCap (some 100) (Monitor.start (1 / 200) (1 / 8) (1 / 4) 1).balancer)
    m.Right 1 (.isRuntimeStable (some 1)) :=
  right_of_clean (1 / 200) (1 / 8) (1 / 4) 1
    (.tail (.refl _) (fun _ => rfl) (l := (0, .powerCap (some 100))) rfl) fun _ => rfl

/-! ### A cap that changes while the vector is in use -/

/-- A runtime is measured under a cap of 100 W; the cap is doubled, and eight more are measured. -/
def mixed : List (ℚ × Call) :=
  [(0, .powerCap (some 100)), (1, .isRuntimeStable (some (3 / 20))), (2, .powerCap (some 200)),
    (3, .isRuntimeStable (some (1 / 10))), (4, .isRuntimeStable (some (3 / 10))),
    (5, .isRuntimeStable (some (1 / 10))), (6, .isRuntimeStable (some (1 / 10))),
    (7, .isRuntimeStable (some (1 / 10))), (8, .isRuntimeStable (some (3 / 10))),
    (9, .isRuntimeStable (some (3 / 10)))]

/-- The median of the nine runtimes is the one that was measured under the old cap. -/
theorem median_mixed :
    Agg.median.apply [some (3 / 20), some (1 / 10), some (3 / 10), some (1 / 10), some (1 / 10),
      some (1 / 10), some (3 / 10), some (3 / 10), some (3 / 10)] = some (3 / 20) := by
  have hsorted : ([3 / 20, 1 / 10, 3 / 10, 1 / 10, 1 / 10, 1 / 10, 3 / 10, 3 / 10, 3 / 10] :
      List ℚ).mergeSort (fun a b => decide (a ≤ b)) =
      [1 / 10, 1 / 10, 1 / 10, 1 / 10, 3 / 20, 3 / 10, 3 / 10, 3 / 10, 3 / 10] := by
    rw [mergeSort_eq_insertionSort (· ≤ ·)]
    decide +kernel
  show some (Agg.medianOf [3 / 20, 1 / 10, 3 / 10, 1 / 10, 1 / 10, 1 / 10, 3 / 10, 3 / 10, 3 / 10])
    = _
  unfold Agg.medianOf
  dsimp only
  rw [hsorted]
  rfl

theorem median_ne {window : List Value}
    (h : ∀ x ∈ window, x = some (1 / 10) ∨ x = some (3 / 10)) :
    Agg.median.apply window ≠ some (3 / 20) := by
  intro heq
  have hmem : ∀ x ∈ Agg.nanFilter window, x = 1 / 10 ∨ x = 3 / 10 := by
    intro x hx
    obtain ⟨y, hy, hyx⟩ := mem_filterMap.mp hx
    obtain hy' | hy' := h y hy
    · rw [hy'] at hyx
      cases hyx
      exact .inl rfl
    · rw [hy'] at hyx
      cases hyx
      exact .inr rfl
  change (if Agg.nanFilter window = [] then none else some (Agg.medianOf (Agg.nanFilter window))) =
    some (3 / 20) at heq
  by_cases hempty : Agg.nanFilter window = []
  · rw [if_pos hempty] at heq
    cases heq
  rw [if_neg hempty, Option.some.injEq] at heq
  obtain ⟨x, hx, y, hy, hmedian⟩ := medianOf_eq hempty
  rw [hmedian] at heq
  obtain rfl | rfl := hmem x hx <;> obtain rfl | rfl := hmem y hy <;> norm_num at heq

theorem sample_of_stable {s s' : PowerBalancer} {x : Value} {now : ℚ}
    (h : isRuntimeStable now x s = .ok true s') :
    s'.runtimeSample = Agg.median.apply s'.held := by
  unfold isRuntimeStable at h
  change (if ¬ s.isLimitStable now = true ∨ x = none then _ else _ : EStateM Exception
    PowerBalancer Bool) s = _ at h
  by_cases hstop : ¬ s.isLimitStable now = true ∨ x = none
  · rw [if_pos hstop] at h
    cases h
  rw [if_neg hstop] at h
  obtain ⟨result, t, -, hrest⟩ := exists_of_bind_eq_ok h
  cases hrest
  rw [calculateRuntimeSample_eq]
  rfl

theorem run_mixed :
    ((Lts.run Monitor.next (.start (1 / 200) (1 / 8) (1 / 4) 9) mixed).map fun m =>
      (m.passed 10 (.isRuntimeStable (some (3 / 10))),
        match isRuntimeStable 10 (some (3 / 10)) m.balancer with
        | .ok true s => some s.held
        | _ => none)) =
      some ([some (1 / 10), some (3 / 10), some (1 / 10), some (1 / 10), some (1 / 10),
        some (3 / 10), some (3 / 10), some (3 / 10)],
      some [some (3 / 20), some (1 / 10), some (3 / 10), some (1 / 10), some (1 / 10),
        some (1 / 10), some (3 / 10), some (3 / 10), some (3 / 10)]) := by
  decide +kernel

theorem not_right_mixed :
    ∃ m, calls.Reachable (.start (1 / 200) (1 / 8) (1 / 4) 9) m ∧
      ¬ m.Right 10 (.isRuntimeStable (some (3 / 10))) := by
  obtain ⟨m, hrun, hboth⟩ := Option.map_eq_some_iff.mp run_mixed
  obtain ⟨hpassed, hheld⟩ := Prod.mk.inj hboth
  refine ⟨m, Lts.reachable_of_run hrun, fun h => ?_⟩
  cases hstable : isRuntimeStable 10 (some (3 / 10)) m.balancer with
  | error e s =>
    rw [hstable] at hheld
    cases hheld
  | ok result s =>
    rw [hstable] at hheld
    cases result with
    | false => cases hheld
    | true =>
      obtain ⟨window, -, hsuffix, hsample⟩ :=
        (h (some true) s ((bind_of_ok hstable).trans rfl)).1 _ rfl rfl
      rw [hpassed] at hsuffix
      rw [sample_of_stable hstable, Option.some.inj hheld, median_mixed] at hsample
      refine median_ne (fun x hx => ?_) hsample.symm
      have hall := hsuffix.subset hx
      simp only [mem_cons, not_mem_nil, or_false] at hall
      tauto

end PowerBalancer

end Geopm
