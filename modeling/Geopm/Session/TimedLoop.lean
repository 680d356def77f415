import Mathlib

/-!
# Timed loops

A timed loop waits before each iteration but the first for its target time, which a period
separates from the one before.  The clock is exact; a wait may be late, but it is never early.

* `TimedLoop`, `next` : the iterator, and what an iteration yields;
* `sleep`, `waitPid` : the waits of `TimedLoop` and of `PIDTimedLoop`;
* `iteration` : the iterations of a run;
* `paced_iff` : a loop keeps pace exactly when it has a number of periods, and no iteration before
  the last is so late that it starts at the end;
* `endsAfterExit` : with a process, a loop ends after the exit when its calls come before their
  targets;
* `timed_loops` : both.
-/

namespace Geopm.Loop

open Option
open Nat

/-! ### The iterator -/

/-- The members of `TimedLoop`. -/
structure TimedLoop where
  period : ℚ
  maxTime : Option ℚ
  stopIteration : Bool
  oneShot : Bool
  loopIdx : ℕ
  targetTime : ℚ
deriving DecidableEq, Repr

/-- A number of periods: an `int`, or a number of another type. -/
inductive NumPeriod where
  | int (n : ℤ)
  | float (x : ℚ)

/-- What the constructor raises. -/
inductive Error where
  | runtimeError (message : String)
  | valueError (message : String)
deriving DecidableEq, Repr

/-- The number of periods is negative. -/
def NumPeriod.isNegative : NumPeriod → Bool
  | .int n => decide (n < 0)
  | .float x => decide (x < 0)

/-- `__init__` of `TimedLoop`, at the time `now`. -/
def TimedLoop.init (period : ℚ) (numPeriod : Option NumPeriod) (now : ℚ) :
    Except Error TimedLoop :=
  if period < 0 then .error (.runtimeError "Specified period is invalid.  Must be >= 0.")
  else
    match numPeriod with
    | none => .ok ⟨period, none, false, false, 0, now⟩
    | some n =>
      if n.isNegative then .error (.runtimeError "Specified num_period is invalid.  Must be > 0.")
      else
        match n with
        | .float _ => .error (.valueError "num_period must be a whole number.")
        | .int n => .ok ⟨period, some (now + period * n), false, decide (n = 0), 0, now⟩

/-- `__iter__`, at the time `now`. -/
def TimedLoop.iter (l : TimedLoop) (now : ℚ) : TimedLoop :=
  { l with loopIdx := 0, targetTime := now }

/-- A loop that is constructed and iterated at once. -/
def begin (period : ℚ) (numPeriod : Option NumPeriod) (start : ℚ) : Except Error TimedLoop :=
  (TimedLoop.init period numPeriod start).map fun l => l.iter start

/-- How long a body lasts, and how late the loop goes on after it: a wait is never early. -/
structure Tick where
  body : ℚ
  late : ℚ
  body_nonneg : 0 ≤ body
  late_nonneg : 0 ≤ late

/-- The first call of `__next__` comes at once. -/
def Tick.zero : Tick := ⟨0, 0, le_rfl, le_rfl⟩

/-- A loop in a `for` statement, with the members of its class that `wait` uses. -/
structure State (ω : Type) where
  loop : TimedLoop
  waiter : ω
  clock : ℚ

/-- A method `wait`, from the time of the call, the timeout and how late it returns: the time when
it returns, or `none` when it raises `StopIteration`. -/
abbrev Wait (ω : Type) := ω → ℚ → ℚ → ℚ → Option (ω × ℚ)

variable {ω : Type}

section Next

variable (wait : Wait ω)

/-- The wait of `__next__` for the target time, which the first iteration and a late one leave
out. -/
def pause (s : State ω) (currTime late : ℚ) : Option (ω × ℚ) :=
  if s.loop.loopIdx ≠ 0 ∧ 0 < s.loop.targetTime - currTime then
    wait s.waiter currTime (s.loop.targetTime - currTime) late
  else some (s.waiter, currTime + late)

/-- The end is reached. -/
def TimedLoop.isOver (l : TimedLoop) (time : ℚ) : Bool :=
  l.maxTime.any fun maxTime => decide (maxTime ≤ time)

/-- `__next__`: the index that is yielded, or `none` for `StopIteration`. -/
def next (s : State ω) (tick : Tick) : Option (ℕ × State ω) :=
  let result := s.loop.loopIdx
  let currTime := s.clock + tick.body
  if s.loop.stopIteration then none
  else
    (pause wait s currTime tick.late).map fun (waiter, clock) =>
      (result,
        { loop := { s.loop with
            stopIteration := (s.loop.loopIdx != 0 && s.loop.isOver clock) || s.loop.oneShot
            targetTime := s.loop.targetTime + s.loop.period
            loopIdx := s.loop.loopIdx + 1 }
          waiter := waiter
          clock := clock })

/-- What passes before a call: nothing before the first one, and a body before the others. -/
def before (ticks : ℕ → Tick) : ℕ → Tick
  | 0 => .zero
  | k + 1 => ticks k

/-- The loop after a number of calls; `none` after `StopIteration`. -/
def after (s : State ω) (ticks : ℕ → Tick) : ℕ → Option (State ω)
  | 0 => some s
  | k + 1 => (after s ticks k).bind fun s => (next wait s (before ticks k)).map Prod.snd

/-- The index that a call yields, and when. -/
def iteration (s : State ω) (ticks : ℕ → Tick) (k : ℕ) : Option (ℕ × ℚ) :=
  (after wait s ticks k).bind fun s =>
    (next wait s (before ticks k)).map fun r => (r.1, r.2.clock)

end Next

/-- `TimedLoop.wait`: `time.sleep`. -/
def sleep : Wait Unit := fun _ now timeout late => some ((), now + timeout + late)

/-- The run of a `TimedLoop`. -/
def TimedLoop.run (l : TimedLoop) (start : ℚ) (ticks : ℕ → Tick) : ℕ → Option (ℕ × ℚ) :=
  iteration sleep ⟨l, (), start⟩ ticks

/-- The member of `PIDTimedLoop` that its `wait` uses. -/
structure PIDTimedLoop where
  isActive : Bool
deriving DecidableEq, Repr

/-- The process has exited by the time. -/
def hasExited (exit : Option ℚ) (time : ℚ) : Bool := exit.any fun exit => decide (exit ≤ time)

/-- When waiting for a process with a deadline is over. -/
def waitUntil (exit : Option ℚ) (now deadline : ℚ) : ℚ :=
  match exit with
  | none => deadline
  | some exit => min deadline (max now exit)

/-- `PIDTimedLoop.wait`, with the time when the process exits, if it does. -/
def waitPid (exit : Option ℚ) : Wait PIDTimedLoop := fun p now timeout late =>
  if !p.isActive then none
  else
    let time := waitUntil exit now (now + timeout) + late
    some (⟨!hasExited exit time⟩, time)

/-- The run of a `PIDTimedLoop`, which polls the process when it is constructed. -/
def TimedLoop.runPid (l : TimedLoop) (exit : Option ℚ) (start : ℚ) (ticks : ℕ → Tick) :
    ℕ → Option (ℕ × ℚ) :=
  iteration (waitPid exit) ⟨l, ⟨!hasExited exit start⟩, start⟩ ticks

/-! ### Calls -/

variable {ticks : ℕ → Tick} {k : ℕ}

section Calls

variable {wait : Wait ω} {s s' : State ω}

theorem after_succ : after wait s ticks (k + 1) =
    (after wait s ticks k).bind fun s => (next wait s (before ticks k)).map Prod.snd := rfl

/-- A call that yields something, between the states of the loop. -/
theorem iteration_eq_some {i : ℕ} {t : ℚ} (h : iteration wait s ticks k = some (i, t)) :
    ∃ s₁ s₂, after wait s ticks k = some s₁ ∧ after wait s ticks (k + 1) = some s₂ ∧
      next wait s₁ (before ticks k) = some (i, s₂) ∧ s₂.clock = t := by
  obtain ⟨s₁, hs₁, h⟩ := bind_eq_some_iff.mp h
  obtain ⟨⟨j, s₂⟩, hnext, hr⟩ := map_eq_some_iff.mp h
  obtain ⟨rfl, rfl⟩ := Prod.mk.inj hr
  refine ⟨s₁, s₂, hs₁, ?_, hnext, rfl⟩
  rw [after_succ, hs₁, bind_some, hnext]
  rfl

theorem after_eq_none {m : ℕ} (h : after wait s ticks k = none) (hm : k ≤ m) :
    after wait s ticks m = none := by
  induction m, hm using le_induction with
  | base => exact h
  | succ m _ ih => rw [after_succ, ih, bind_none]

theorem iteration_eq_none {m : ℕ} (h : after wait s ticks (k + 1) = none) (hm : k ≤ m) :
    iteration wait s ticks m = none := by
  have hnone := after_eq_none h (succ_le_succ hm)
  rw [after_succ] at hnone
  rw [iteration]
  cases hafter : after wait s ticks m with
  | none => rfl
  | some s₁ =>
    rw [hafter, bind_some, map_eq_none_iff] at hnone
    rw [bind_some, hnone]
    rfl

theorem exists_after (h : after wait s ticks k = some s') {m : ℕ} (hm : m ≤ k) :
    ∃ s₁, after wait s ticks m = some s₁ := by
  cases hafter : after wait s ticks m with
  | some s₁ => exact ⟨s₁, rfl⟩
  | none => rw [after_eq_none hafter hm] at h; cases h

theorem next_eq_some {tick : Tick} {i : ℕ} (h : next wait s tick = some (i, s')) :
    i = s.loop.loopIdx ∧ s.loop.stopIteration = false ∧
      pause wait s (s.clock + tick.body) tick.late = some (s'.waiter, s'.clock) ∧
      s'.loop = { s.loop with
        stopIteration := (s.loop.loopIdx != 0 && s.loop.isOver s'.clock) || s.loop.oneShot
        targetTime := s.loop.targetTime + s.loop.period
        loopIdx := s.loop.loopIdx + 1 } := by
  rw [next] at h
  split_ifs at h with hstop
  obtain ⟨⟨waiter, clock⟩, hpause, hr⟩ := map_eq_some_iff.mp h
  obtain ⟨rfl, rfl⟩ := Prod.mk.inj hr
  exact ⟨rfl, Bool.eq_false_iff.mpr hstop, hpause, rfl⟩

theorem loop_after {l : TimedLoop} (hs : s.loop = l) (hidx : l.loopIdx = 0)
    (h : after wait s ticks k = some s') :
    s'.loop = { l with
      stopIteration := s'.loop.stopIteration
      targetTime := l.targetTime + k * l.period
      loopIdx := k } := by
  induction k generalizing s' with
  | zero =>
    obtain rfl := Option.some.inj h
    subst hs
    rw [cast_zero, zero_mul, add_zero, ← hidx]
  | succ k ih =>
    obtain ⟨s₁, hs₁, h⟩ := bind_eq_some_iff.mp h
    obtain ⟨⟨i, s₂⟩, hnext, rfl⟩ := map_eq_some_iff.mp h
    obtain ⟨-, -, -, hloop⟩ := next_eq_some hnext
    rw [hloop, ih hs₁]
    simp only [TimedLoop.mk.injEq, true_and]
    push_cast
    ring

end Calls

/-! ### Keeping pace -/

/-- How late the loop goes on with an iteration. -/
def lateness (ticks : ℕ → Tick) (k : ℕ) : ℚ := (before ticks k).late

/-- The body of an iteration ends in the period: it is done by the next target time when its
iteration has started as late as the wait before it was. -/
def Fits (period : ℚ) (ticks : ℕ → Tick) (k : ℕ) : Prop :=
  lateness ticks k + (ticks k).body ≤ period

/-- The run keeps pace and stops: it yields the indices in order, none before its time, and ends;
the last iteration is not before the end, and is the number of periods when every body fits. -/
structure Paced (period : ℚ) (numPeriod : Option NumPeriod) (start : ℚ) (ticks : ℕ → Tick)
    (run : ℕ → Option (ℕ × ℚ)) : Prop where
  indices : ∀ k i t, run k = some (i, t) → i = k
  pace : ∀ k i t, run k = some (i, t) → start + i * period ≤ t
  ends : ∃ last i t, run last = some (i, t) ∧ (∀ k ≤ last, (run k).isSome) ∧
    (∀ k > last, run k = none) ∧ ∀ n : ℕ, numPeriod = some (.int n) →
      start + n * period ≤ t ∧ ((∀ k < last, Fits period ticks k) → last = n)

/-- No iteration between the first and the last comes so late that it starts at the end, when the
bodies before it fit. -/
def WakesInTime (period : ℚ) (n : ℕ) (ticks : ℕ → Tick) : Prop :=
  ∀ i, 0 < i → i < n → (∀ k < i, Fits period ticks k) → lateness ticks i < (n - i : ℕ) * period

variable {l : TimedLoop}

section Paced

variable {period start : ℚ} {numPeriod : Option NumPeriod} {s' : State Unit}

/-- What is known of a loop that has been begun. -/
structure Begun (period start : ℚ) (numPeriod : Option NumPeriod) (l : TimedLoop) : Prop where
  period_nonneg : 0 ≤ period
  period_eq : l.period = period
  loopIdx : l.loopIdx = 0
  targetTime : l.targetTime = start
  stopIteration : l.stopIteration = false
  numbers : numPeriod = none ∧ l.maxTime = none ∧ l.oneShot = false ∨
    ∃ n : ℕ, numPeriod = some (.int n) ∧ l.maxTime = some (start + period * n) ∧
      l.oneShot = decide (n = 0)

theorem numPeriod_injective {m n : ℕ}
    (h : some (NumPeriod.int m) = some (NumPeriod.int n)) : m = n := by
  injection h with h
  injection h with h
  exact Int.natCast_inj.mp h

theorem begun (h : begin period numPeriod start = .ok l) : Begun period start numPeriod l := by
  unfold begin TimedLoop.init at h
  split_ifs at h with hneg
  · cases h
  have hperiod : 0 ≤ period := not_lt.mp hneg
  cases numPeriod with
  | none =>
    cases h
    exact ⟨hperiod, rfl, rfl, rfl, rfl, .inl ⟨rfl, rfl, rfl⟩⟩
  | some n =>
    cases n with
    | float x => simp only at h; split_ifs at h <;> cases h
    | int n =>
      simp only [NumPeriod.isNegative, decide_eq_true_eq] at h
      split_ifs at h with hn
      · cases h
      cases h
      obtain ⟨m, rfl⟩ := Int.eq_ofNat_of_zero_le (not_lt.mp hn)
      refine ⟨hperiod, rfl, rfl, rfl, rfl, .inr ⟨m, rfl, ?_, ?_⟩⟩
      · simp [TimedLoop.iter]
      · simp [TimedLoop.iter]

/-- What the loop has waited for after a number of calls. -/
structure Waited (period start : ℚ) (ticks : ℕ → Tick) (l : TimedLoop) (k : ℕ)
    (s : State Unit) : Prop where
  stop : s.loop.stopIteration = ((k != 0 && l.isOver s.clock) || l.oneShot)
  pace : start + k * period ≤ s.clock
  onTime : (∀ j < k, Fits period ticks j) → s.clock = start + k * period + lateness ticks k

variable {s : State Unit}

/-- A call to the iterator. -/
theorem next_sleep (hl : Begun period start numPeriod l)
    (h : after sleep ⟨l, (), start⟩ ticks k = some s) {i : ℕ}
    (hnext : next sleep s (before ticks k) = some (i, s')) :
    i = k ∧ s'.loop.stopIteration = ((k != 0 && l.isOver s'.clock) || l.oneShot) ∧
      (k = 0 ∧ s'.clock = s.clock ∨ k ≠ 0 ∧
        (s.clock + (before ticks k).body < start + k * period ∧
          s'.clock = start + k * period + lateness ticks k ∨
        start + k * period ≤ s.clock + (before ticks k).body ∧
          s'.clock = s.clock + (before ticks k).body + lateness ticks k)) := by
  obtain ⟨hi, -, hpause, hloop⟩ := next_eq_some hnext
  have hs := loop_after (l := l) rfl hl.loopIdx h
  have hidx : s.loop.loopIdx = k := by rw [hs]
  have htarget : s.loop.targetTime = start + k * period := by
    rw [hs, ← hl.targetTime, ← hl.period_eq]
  refine ⟨hi.trans hidx, ?_, ?_⟩
  · rw [hloop, hs]
    rfl
  · rw [pause, hidx, htarget] at hpause
    split_ifs at hpause with hwait
    · obtain ⟨-, hclock⟩ := Prod.mk.inj (Option.some.inj hpause)
      refine .inr ⟨hwait.1, .inl ⟨sub_pos.mp hwait.2, ?_⟩⟩
      rw [← hclock, lateness]
      ring
    · obtain ⟨-, hclock⟩ := Prod.mk.inj (Option.some.inj hpause)
      rcases Nat.eq_zero_or_pos k with rfl | hk
      · refine .inl ⟨rfl, ?_⟩
        rw [← hclock]
        exact (add_zero _).trans (add_zero _)
      · rw [not_and, sub_pos, not_lt] at hwait
        exact .inr ⟨hk.ne', .inr ⟨hwait hk.ne', hclock.symm⟩⟩

theorem waited (hl : Begun period start numPeriod l)
    (h : after sleep ⟨l, (), start⟩ ticks (k + 1) = some s') :
    Waited period start ticks l k s' := by
  induction k generalizing s' with
  | zero =>
    obtain ⟨⟨i, s₂⟩, hnext, rfl⟩ := map_eq_some_iff.mp (h : (next sleep _ _).map _ = _)
    obtain ⟨-, hstop, ⟨-, hclock⟩ | ⟨hne, -⟩⟩ := next_sleep hl rfl hnext
    · change s₂.clock = start at hclock
      refine ⟨hstop, ?_, fun _ => ?_⟩
      · rw [hclock, cast_zero, zero_mul, add_zero]
      · rw [hclock, cast_zero, zero_mul, add_zero]
        exact (add_zero start).symm
    · exact absurd rfl hne
  | succ k ih =>
    rw [after_succ] at h
    obtain ⟨s₁, hs₁, h⟩ := bind_eq_some_iff.mp h
    obtain ⟨⟨i, s₂⟩, hnext, rfl⟩ := map_eq_some_iff.mp h
    have hw := ih hs₁
    obtain ⟨-, hstop, ⟨hzero, -⟩ | ⟨-, hclock⟩⟩ := next_sleep hl hs₁ hnext
    · cases hzero
    have hlate : 0 ≤ lateness ticks (k + 1) := (before ticks (k + 1)).late_nonneg
    refine ⟨hstop, ?_, fun hfits => ?_⟩
    · rcases hclock with ⟨-, hclock⟩ | ⟨hover, hclock⟩
      · rw [hclock]
        exact le_add_of_nonneg_right hlate
      · rw [hclock]
        exact hover.trans (le_add_of_nonneg_right hlate)
    · rcases hclock with ⟨-, hclock⟩ | ⟨hover, hclock⟩
      · exact hclock
      · -- the body ends exactly at the next target time
        have honTime := hw.onTime fun j hj => hfits j (hj.trans (lt_succ_self k))
        have hfit : lateness ticks k + (ticks k).body ≤ period := hfits k (lt_succ_self k)
        have hbody : (before ticks (k + 1)).body = (ticks k).body := rfl
        rw [honTime, hbody] at hover hclock
        rw [hclock]
        push_cast at hover ⊢
        linarith

theorem exists_after_succ (h : after sleep ⟨l, (), start⟩ ticks k = some s)
    (hstop : s.loop.stopIteration = false) :
    ∃ s', after sleep ⟨l, (), start⟩ ticks (k + 1) = some s' ∧
      ∃ i, next sleep s (before ticks k) = some (i, s') := by
  obtain ⟨⟨waiter, clock⟩, hpause⟩ : ∃ x, pause sleep s (s.clock + (before ticks k).body)
      (before ticks k).late = some x := by
    rw [pause]
    split_ifs
    · exact ⟨_, rfl⟩
    · exact ⟨_, rfl⟩
  have hnext : ∃ s', next sleep s (before ticks k) = some (s.loop.loopIdx, s') := by
    simp only [next, hstop, Bool.false_eq_true, if_false, hpause]
    exact ⟨_, rfl⟩
  obtain ⟨s', hnext⟩ := hnext
  refine ⟨s', ?_, _, hnext⟩
  rw [after_succ, h, bind_some, hnext]
  rfl

theorem after_succ_eq_none (h : after sleep ⟨l, (), start⟩ ticks k = some s)
    (hstop : s.loop.stopIteration = true) : after sleep ⟨l, (), start⟩ ticks (k + 1) = none := by
  rw [after_succ, h, bind_some, next, if_pos hstop]
  rfl

theorem exists_iteration (hl : Begun period start numPeriod l)
    (h : after sleep ⟨l, (), start⟩ ticks (k + 1) = some s) :
    l.run start ticks k = some (k, s.clock) := by
  rw [after_succ] at h
  obtain ⟨s₁, hs₁, h⟩ := bind_eq_some_iff.mp h
  obtain ⟨⟨i, s₂⟩, hnext, rfl⟩ := map_eq_some_iff.mp h
  obtain ⟨rfl, -⟩ := next_sleep hl hs₁ hnext
  rw [TimedLoop.run, iteration, hs₁, bind_some, hnext]
  rfl

theorem run_eq_some (hl : Begun period start numPeriod l) {i : ℕ} {t : ℚ}
    (h : l.run start ticks k = some (i, t)) :
    i = k ∧ ∃ s, after sleep ⟨l, (), start⟩ ticks (k + 1) = some s ∧ s.clock = t ∧
      Waited period start ticks l k s := by
  obtain ⟨s₁, s₂, hs₁, hs₂, hnext, hclock⟩ := iteration_eq_some h
  exact ⟨(next_sleep hl hs₁ hnext).1, s₂, hs₂, hclock, waited hl hs₂⟩

theorem exists_after_of_none (hl : Begun period start none l) (ticks : ℕ → Tick) (k : ℕ) :
    ∃ s, after sleep ⟨l, (), start⟩ ticks k = some s ∧ s.loop.stopIteration = false := by
  obtain ⟨-, hmax, hshot⟩ | ⟨n, hn, -⟩ := hl.numbers
  · induction k with
    | zero => exact ⟨_, rfl, hl.stopIteration⟩
    | succ k ih =>
      obtain ⟨s, hs, hstop⟩ := ih
      obtain ⟨s', hs', -⟩ := exists_after_succ hs hstop
      refine ⟨s', hs', ?_⟩
      rw [(waited hl hs').stop, TimedLoop.isOver, hmax, hshot]
      simp
  · cases hn

theorem exists_last {n : ℕ} (hl : Begun period start (some (.int n)) l) (ticks : ℕ → Tick) :
    ∃ last ≤ n, ∃ s, after sleep ⟨l, (), start⟩ ticks (last + 1) = some s ∧
      s.loop.stopIteration = true ∧ start + n * period ≤ s.clock := by
  obtain ⟨hnone, -⟩ | ⟨m, hm, hmax, hshot⟩ := hl.numbers
  · cases hnone
  obtain rfl := (numPeriod_injective hm).symm
  have hover : ∀ t, l.isOver t = decide (start + m * period ≤ t) := by
    intro t
    rw [TimedLoop.isOver, hmax, any_some, mul_comm]
  -- up to each iteration the loop has stopped, or it goes on
  have hgoes : ∀ k, (∃ last ≤ k, ∃ s, after sleep ⟨l, (), start⟩ ticks (last + 1) = some s ∧
      s.loop.stopIteration = true) ∨
      ∃ s, after sleep ⟨l, (), start⟩ ticks (k + 1) = some s ∧ s.loop.stopIteration = false := by
    intro k
    induction k with
    | zero =>
      obtain ⟨s, hs, -⟩ := exists_after_succ (k := 0) (show after sleep _ ticks 0 = some _ from rfl) hl.stopIteration
      cases hstop : s.loop.stopIteration with
      | true => exact .inl ⟨0, le_rfl, s, hs, hstop⟩
      | false => exact .inr ⟨s, hs, hstop⟩
    | succ k ih =>
      obtain ⟨last, hlast, hstopped⟩ | ⟨s₁, hs₁, hstop₁⟩ := ih
      · exact .inl ⟨last, hlast.trans (le_succ k), hstopped⟩
      · obtain ⟨s, hs, -⟩ := exists_after_succ hs₁ hstop₁
        cases hstop : s.loop.stopIteration with
        | true => exact .inl ⟨k + 1, le_rfl, s, hs, hstop⟩
        | false => exact .inr ⟨s, hs, hstop⟩
  obtain ⟨last, hlast, s, hs, hstop⟩ | ⟨s, hs, hstop⟩ := hgoes m
  · refine ⟨last, hlast, s, hs, hstop, ?_⟩
    have hw := waited hl hs
    rw [hw.stop, hshot, hover, Bool.or_eq_true, Bool.and_eq_true, decide_eq_true_eq,
      decide_eq_true_eq] at hstop
    rcases hstop with ⟨-, hstop⟩ | rfl
    · exact hstop
    · obtain rfl := le_zero.mp hlast
      exact hw.pace
  · -- the iteration `m` is not before the end
    have hw := waited hl hs
    rw [hw.stop, hshot, hover, decide_eq_true hw.pace, Bool.and_true] at hstop
    cases m with
    | zero => cases hstop
    | succ m => cases hstop

/-- A loop keeps pace and stops exactly when it has a number of periods, and no iteration before the
last is so late that it starts at the end. -/
theorem paced_iff (hl : Begun period start numPeriod l) (ticks : ℕ → Tick) :
    Paced period numPeriod start ticks (l.run start ticks) ↔
      ∃ n : ℕ, numPeriod = some (.int n) ∧ WakesInTime period n ticks := by
  constructor
  · intro h
    obtain ⟨hnone, -⟩ | ⟨n, hn, hmax, hshot⟩ := hl.numbers
    · -- a loop without a number of periods does not end
      subst hnone
      obtain ⟨last, -, -, -, -, hafter, -⟩ := h.ends
      obtain ⟨s, hs, -⟩ := exists_after_of_none hl ticks (last + 2)
      have hrun := hafter (last + 1) (lt_succ_self last)
      rw [exists_iteration hl hs] at hrun
      cases hrun
    · refine ⟨n, hn, fun i hi hin hfits => ?_⟩
      obtain ⟨last, j, t, hrun, hbefore, hafter, hends⟩ := h.ends
      obtain ⟨-, hall⟩ := hends n hn
      -- the last iteration is the one that stops the loop
      have hle : i ≤ last := by
        by_contra hlt
        have hlast := hall fun k hk => hfits k (hk.trans (not_le.mp hlt))
        omega
      obtain ⟨⟨i', t'⟩, hrun'⟩ := isSome_iff_exists.mp (hbefore i hle)
      obtain ⟨-, s, hs, -, hw⟩ := run_eq_some hl hrun'
      by_contra hlate
      have hstop : s.loop.stopIteration = true := by
        have hover : start + period * n ≤ s.clock := by
          have hcast : ((n - i : ℕ) : ℚ) = n - i := cast_sub hin.le
          rw [hw.onTime hfits]
          rw [not_lt, hcast] at hlate
          linarith
        rw [hw.stop, TimedLoop.isOver, hmax, any_some, decide_eq_true hover, Bool.and_true,
          bne_iff_ne.mpr hi.ne', Bool.true_or]
      have hlast : i = last := by
        by_contra hne
        have hnone := iteration_eq_none (after_succ_eq_none hs hstop)
          (succ_le_of_lt (lt_of_le_of_ne hle hne))
        rw [TimedLoop.run] at hrun
        rw [hnone] at hrun
        cases hrun
      have := hall fun k hk => hfits k (hlast ▸ hk)
      omega
  · rintro ⟨n, rfl, hwakes⟩
    obtain ⟨last, hlast, s, hs, hstop, hend⟩ := exists_last hl ticks
    have hrun := exists_iteration hl hs
    refine ⟨fun k i t h => (run_eq_some hl h).1, fun k i t h => ?_, last, last, s.clock, hrun, ?_,
      fun k hk => iteration_eq_none (after_succ_eq_none hs hstop) hk, fun m hm => ?_⟩
    · obtain ⟨rfl, s', -, rfl, hw⟩ := run_eq_some hl h
      exact hw.pace
    · intro k hk
      obtain ⟨s', hs'⟩ := exists_after hs (succ_le_succ hk)
      rw [exists_iteration hl hs']
      rfl
    · obtain rfl := (numPeriod_injective hm).symm
      refine ⟨hend, fun hfits => ?_⟩
      have hw := waited hl hs
      by_contra hne
      have hlt : last < m := lt_of_le_of_ne hlast hne
      rcases Nat.eq_zero_or_pos last with rfl | hpos
      · -- the first iteration does not stop a loop with a period
        obtain ⟨hnone, -⟩ | ⟨n', hn', -, hshot⟩ := hl.numbers
        · cases hnone
        · obtain rfl := numPeriod_injective hn'
          rw [hw.stop, hshot, decide_eq_false hlt.ne'] at hstop
          cases hstop
      · have hlate := hwakes last hpos hlt hfits
        have hcast : ((m - last : ℕ) : ℚ) = m - last := cast_sub hlt.le
        rw [hw.onTime hfits] at hend
        rw [hcast] at hlate
        linarith

end Paced

/-! ### Ending with a process -/

/-- At most one iteration starts after the process has exited. -/
def EndsAfterExit (exit : Option ℚ) (run : ℕ → Option (ℕ × ℚ)) : Prop :=
  ∀ e, exit = some e → ∀ k k' r r', run k = some r → run k' = some r' → e < r.2 → e < r'.2 → k = k'

/-- The call comes before its target time, unless the loop has stopped, the call is the first one,
or the process outlives the call. -/
def InTime (exit : Option ℚ) (s : State PIDTimedLoop) (tick : Tick) : Prop :=
  s.loop.stopIteration = false → s.loop.loopIdx ≠ 0 →
    (∃ e, exit = some e ∧ e < s.clock + tick.body + tick.late) →
    s.clock + tick.body < s.loop.targetTime

section Process

variable {e start : ℚ}

/-- A wait during which the process exits is noticed. -/
theorem isActive_of_waitPid {p p' : PIDTimedLoop} {now timeout late t : ℚ}
    (h : waitPid (some e) p now timeout late = some (p', t)) (he : e < t) :
    p.isActive = true ∧ p'.isActive = false := by
  rw [waitPid] at h
  split_ifs at h with hactive
  · obtain ⟨rfl, rfl⟩ := Prod.mk.inj (Option.some.inj h)
    refine ⟨by simpa using hactive, ?_⟩
    simp [hasExited, he.le]

theorem isActive_of_next {s s' : State PIDTimedLoop} {tick : Tick} {i : ℕ}
    (hin : InTime (some e) s tick) (hidx : s.loop.loopIdx ≠ 0)
    (h : next (waitPid (some e)) s tick = some (i, s')) (he : e < s'.clock) :
    s'.waiter.isActive = false := by
  obtain ⟨-, hstop, hpause, -⟩ := next_eq_some h
  rw [pause] at hpause
  split_ifs at hpause with hwait
  · exact (isActive_of_waitPid hpause he).2
  · -- without a wait the call would be after its target time
    obtain ⟨-, hclock⟩ := Prod.mk.inj (Option.some.inj hpause)
    have hlt := hin hstop hidx ⟨e, rfl, hclock ▸ he⟩
    exact absurd ⟨hidx, sub_pos.mpr hlt⟩ hwait

variable {s : State PIDTimedLoop}

theorem next_eq_none {tick : Tick} (hin : InTime (some e) s tick)
    (hidx : s.loop.loopIdx ≠ 0) (hactive : s.waiter.isActive = false) (he : e < s.clock) :
    next (waitPid (some e)) s tick = none := by
  rw [next]
  split_ifs with hstop
  · rfl
  · have hlater : e < s.clock + tick.body + tick.late := by
      have := tick.body_nonneg
      have := tick.late_nonneg
      linarith
    have hlt := hin (Bool.eq_false_iff.mpr hstop) hidx ⟨e, rfl, hlater⟩
    rw [pause, if_pos ⟨hidx, sub_pos.mpr hlt⟩, waitPid, hactive]
    rfl

theorem endsAfterExit {exit : Option ℚ} (hidx : l.loopIdx = 0)
    (hin : ∀ k s, after (waitPid exit) ⟨l, ⟨!hasExited exit start⟩, start⟩ ticks k = some s →
      InTime exit s (before ticks k)) : EndsAfterExit exit (l.runPid exit start ticks) := by
  rintro e rfl
  -- the call after an iteration that starts after the exit ends the loop
  have hends : ∀ k r, l.runPid (some e) start ticks k = some r → e < r.2 →
      after (waitPid (some e)) ⟨l, ⟨!hasExited (some e) start⟩, start⟩ ticks (k + 2) = none := by
    rintro k ⟨i, t⟩ hrun he
    obtain ⟨s₁, s₂, hs₁, hs₂, hnext, rfl⟩ := iteration_eq_some hrun
    have hidx₁ : s₁.loop.loopIdx = k := by rw [loop_after (l := l) rfl hidx hs₁]
    have hidx₂ : s₂.loop.loopIdx = k + 1 := by rw [loop_after (l := l) rfl hidx hs₂]
    have hactive : s₂.waiter.isActive = false := by
      rcases Nat.eq_zero_or_pos k with rfl | hk
      · -- the constructor has found that the process has exited
        obtain rfl := Option.some.inj hs₁
        obtain ⟨-, -, hpause, -⟩ := next_eq_some hnext
        rw [pause, if_neg fun h => h.1 hidx] at hpause
        obtain ⟨hwaiter, hclock⟩ := Prod.mk.inj (Option.some.inj hpause)
        have hstart : s₂.clock = start := by
          rw [← hclock]
          exact (add_zero _).trans (add_zero _)
        rw [← hwaiter]
        rw [hstart] at he
        simp [hasExited, he.le]
      · exact isActive_of_next (hin k s₁ hs₁) (hidx₁ ▸ hk.ne') hnext he
    rw [after_succ, hs₂, bind_some,
      next_eq_none (hin (k + 1) s₂ hs₂) (hidx₂ ▸ succ_ne_zero k) hactive he]
    rfl
  have hle : ∀ k k' r r', l.runPid (some e) start ticks k = some r →
      l.runPid (some e) start ticks k' = some r' → e < r.2 → k' ≤ k := by
    intro k k' r r' hrun hrun' he
    by_contra hlt
    have hnone := iteration_eq_none (hends k r hrun he) (succ_le_of_lt (not_le.mp hlt))
    rw [TimedLoop.runPid, hnone] at hrun'
    cases hrun'
  intro k k' r r' hrun hrun' he he'
  exact le_antisymm (hle k' k r' r hrun' hrun he') (hle k k' r r' hrun hrun' he)

/-- The body of each iteration is shorter than the period, counted as for `Fits`. -/
def Short (period : ℚ) (ticks : ℕ → Tick) : Prop :=
  ∀ k, lateness ticks k + (ticks k).body < period

/-- A wait for a process is over by the deadline. -/
theorem waitUntil_le (exit : Option ℚ) (now deadline : ℚ) : waitUntil exit now deadline ≤ deadline := by
  cases exit with
  | none => exact le_rfl
  | some e => exact min_le_left _ _

theorem clock_le {exit : Option ℚ} (hidx : l.loopIdx = 0) (htarget : l.targetTime = start)
    (hshort : Short l.period ticks)
    (h : after (waitPid exit) ⟨l, ⟨!hasExited exit start⟩, start⟩ ticks (k + 1) = some s) :
    s.clock ≤ start + k * l.period + lateness ticks k := by
  induction k generalizing s with
  | zero =>
    obtain ⟨⟨i, s₂⟩, hnext, rfl⟩ := map_eq_some_iff.mp (h : (next _ _ _).map _ = _)
    obtain ⟨-, -, hpause, -⟩ := next_eq_some hnext
    rw [pause, if_neg fun h => h.1 hidx] at hpause
    obtain ⟨-, hclock⟩ := Prod.mk.inj (Option.some.inj hpause)
    refine hclock.symm.le.trans ?_
    rw [cast_zero, zero_mul, add_zero]
    exact (add_le_add_left (add_zero start).le _)
  | succ k ih =>
    rw [after_succ] at h
    obtain ⟨s₁, hs₁, h⟩ := bind_eq_some_iff.mp h
    obtain ⟨⟨i, s₂⟩, hnext, rfl⟩ := map_eq_some_iff.mp h
    obtain ⟨-, -, hpause, -⟩ := next_eq_some hnext
    have hs := loop_after (l := l) rfl hidx hs₁
    have hidx₁ : s₁.loop.loopIdx = k + 1 := by rw [hs]
    have htarget₁ : s₁.loop.targetTime = start + (k + 1 : ℕ) * l.period := by rw [hs, ← htarget]
    have hclock := ih hs₁
    have hbody : lateness ticks k + (ticks k).body < l.period := hshort k
    have hlt : s₁.clock + (before ticks (k + 1)).body < start + (k + 1 : ℕ) * l.period := by
      change s₁.clock + (ticks k).body < _
      push_cast
      linarith
    rw [pause, hidx₁, htarget₁, if_pos ⟨succ_ne_zero k, sub_pos.mpr hlt⟩, waitPid] at hpause
    split_ifs at hpause with hactive
    obtain ⟨-, hclock₂⟩ := Prod.mk.inj (Option.some.inj hpause)
    have huntil := waitUntil_le exit (s₁.clock + (before ticks (k + 1)).body)
      (start + (k + 1 : ℕ) * l.period)
    rw [add_sub_cancel] at hclock₂
    change s₂.clock ≤ _
    rw [← hclock₂, lateness]
    exact add_le_add_left huntil _

theorem inTime_of_short {exit : Option ℚ} (hidx : l.loopIdx = 0) (htarget : l.targetTime = start)
    (hshort : Short l.period ticks)
    (h : after (waitPid exit) ⟨l, ⟨!hasExited exit start⟩, start⟩ ticks k = some s) :
    InTime exit s (before ticks k) := by
  intro _ hne _
  have hs := loop_after (l := l) rfl hidx h
  cases k with
  | zero => exact absurd (by rw [hs]) hne
  | succ k =>
    have hclock := clock_le hidx htarget hshort h
    have hbody : lateness ticks k + (ticks k).body < l.period := hshort k
    rw [hs, htarget]
    change s.clock + (ticks k).body < start + (k + 1 : ℕ) * l.period
    push_cast
    linarith

end Process

/-! ### Both loops -/

/-- A timed loop keeps pace and stops exactly when it has a number of periods and no iteration
before the last is so late that it starts at the end.  A loop with a process ends within an
iteration after the exit when its calls come before their targets. -/
theorem timed_loops {period start : ℚ} {numPeriod : Option NumPeriod} {l : TimedLoop}
    (h : begin period numPeriod start = .ok l) (ticks : ℕ → Tick) :
    (Paced period numPeriod start ticks (l.run start ticks) ↔
      ∃ n : ℕ, numPeriod = some (.int n) ∧ WakesInTime period n ticks) ∧
    ∀ exit, (∀ k s, after (waitPid exit) ⟨l, ⟨!hasExited exit start⟩, start⟩ ticks k = some s →
      InTime exit s (before ticks k)) → EndsAfterExit exit (l.runPid exit start ticks) :=
  ⟨paced_iff (begun h) ticks, fun _ hin => endsAfterExit (begun h).loopIdx hin⟩

/-- Every body lasts for the time, and every wait is exact. -/
def bodies (time : ℚ) (h : 0 ≤ time) : ℕ → Tick := fun _ => ⟨time, 0, h, le_rfl⟩

theorem lateness_bodies (time : ℚ) (h : 0 ≤ time) (k : ℕ) : lateness (bodies time h) k = 0 := by
  cases k <;> rfl

/-- Two periods with bodies of half a period; the process exits in the second period. -/
theorem timed_loops_halves : ∃ l, begin 1 (some (.int 2)) 0 = .ok l ∧
    Paced 1 (some (.int 2)) 0 (bodies (1 / 2) (by norm_num))
      (l.run 0 (bodies (1 / 2) (by norm_num))) ∧
    EndsAfterExit (some (5 / 4)) (l.runPid (some (5 / 4)) 0 (bodies (1 / 2) (by norm_num))) := by
  obtain ⟨hpaced, hends⟩ := @timed_loops 1 0 (some (.int 2))
    ⟨1, some 2, false, false, 0, 0⟩ (by decide +kernel) (bodies (1 / 2) (by norm_num))
  refine ⟨_, by decide +kernel, hpaced.mpr ⟨2, rfl, fun i hi hlt _ => ?_⟩,
    hends (some (5 / 4)) fun k s h => inTime_of_short rfl rfl (fun k => ?_) h⟩
  · rw [lateness_bodies]
    obtain rfl : i = 1 := by omega
    norm_num
  · rw [lateness_bodies]
    norm_num [bodies]

/-- A loop with two periods of length zero only has two iterations, although every body fits.  A
loop with a process goes on after the exit when its bodies are as long as the period. -/
theorem not_timed_loops :
    (∃ l, begin 0 (some (.int 2)) 0 = .ok l ∧
      ¬ Paced 0 (some (.int 2)) 0 (bodies 0 le_rfl) (l.run 0 (bodies 0 le_rfl))) ∧
    ∃ l, begin 1 none 0 = .ok l ∧
      ¬ EndsAfterExit (some (1 / 2)) (l.runPid (some (1 / 2)) 0 (bodies 1 (by norm_num))) := by
  refine ⟨⟨⟨0, some 0, false, false, 0, 0⟩, by decide +kernel, fun hpaced => ?_⟩,
    ⟨⟨1, none, false, false, 0, 0⟩, by decide +kernel, fun hends => ?_⟩⟩
  · obtain ⟨n, hn, hwakes⟩ := (paced_iff (begun (by decide +kernel)) _).mp hpaced
    obtain rfl : 2 = n := numPeriod_injective hn
    have hlate := hwakes 1 one_pos one_lt_two fun k _ => by
      rw [Fits, lateness_bodies]
      exact (add_zero _).le
    rw [lateness_bodies, mul_zero] at hlate
    exact lt_irrefl _ hlate
  · have heq := hends (1 / 2) rfl 1 2 (1, 1) (2, 2) (by decide +kernel) (by decide +kernel)
      (by norm_num) (by norm_num)
    cases heq

end Geopm.Loop
