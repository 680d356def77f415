import Mathlib

/-!
# The optimizer of `geopmopt`

The optimizer runs trials, scores each by its objective and by how far it violates the constraints,
keeps a history, and returns the best entry of it.

* `Constraint`, `Violation`, `score` : constraints, and the score that is minimized;
* `scoreTrial`, `recordTrial`, `optimize`, `selectBestEntry` : the methods of `BayesianOptimizer`;
* `Feasible` : a trial that does not fail and satisfies all constraints;
* `optimize_spec` : in a first run without measurements on a strict bound and without NaN, the
  feasible trials are recorded as such, and one of them with the best objective is returned;
* `optimize_unspecified` : runs in which this is not so.
-/

namespace Geopm.Opt

open List

/-- A `float`, with exact arithmetic; `none` stands for NaN. -/
abbrev Value := Option ℚ

/-- `a < b`. -/
def Value.lt : Value → Value → Bool
  | some a, some b => decide (a < b)
  | _, _ => false

/-- `max(a, b)`, which is `a` unless `b` is greater. -/
def Value.max (a b : Value) : Value := if Value.lt a b then b else a

/-- `min(a, b)`, which is `a` unless `b` is less. -/
def Value.min (a b : Value) : Value := if Value.lt b a then b else a

/-! ### Constraints and scores -/

/-- The keys of `OPERATORS`. -/
inductive Operator where
  | le | lt | ge | gt | eq
deriving DecidableEq, Repr

/-- The values of `OPERATORS`. -/
def Operator.apply : Operator → ℚ → ℚ → Bool
  | le, a, b => decide (a ≤ b)
  | lt, a, b => decide (a < b)
  | ge, a, b => decide (b ≤ a)
  | gt, a, b => decide (b < a)
  | eq, a, b => decide (a = b)

def characteristicScale (bound : ℚ) : ℚ := if |bound| ≠ 0 then 1 / |bound| else 1

/-- `Constraint`. -/
structure Constraint where
  name : String
  op : Operator
  value : ℚ

namespace Constraint

/-- `Constraint.satisfied`: no comparison with NaN holds. -/
def satisfied (c : Constraint) (measured : Value) : Bool :=
  measured.elim false fun x => c.op.apply x c.value

/-- `Constraint.violation`. -/
def violation (c : Constraint) (measured : Value) : Value :=
  if c.satisfied measured then some 0
  else measured.map fun x => match c.op with
    | .le | .lt => x - c.value
    | .ge | .gt => c.value - x
    | .eq => |x - c.value|

/-- `Constraint.scale`. -/
def scale (c : Constraint) : ℚ := characteristicScale c.value

end Constraint

/-- `Violation`. -/
structure Violation where
  amount : Value
  scale : Value
  weight : ℚ

/-- `Violation.penalty`. -/
def Violation.penalty (v : Violation) : Value :=
  v.scale.map fun scale => v.weight * scale * v.amount.elim 0 (max 0)

/-- `metrics.score` of a trial that has not failed. -/
def score (objective : Value) (violations : List Violation) : Value :=
  violations.foldl (fun total v => Option.map₂ (· + ·) total v.penalty) objective

/-! ### Trials -/

/-- What a trial raises. -/
inductive Error where
  | metricEvaluation (what : String)
  | metricSpec (what : String)
  | key (name : String)
  | optimization (what : String)
deriving DecidableEq

/-- `TrialResult`. -/
structure TrialResult where
  fom : Option Value := none
  energy : Option Value := none
  runtime : Option Value := none
  averagePower : Option Value := none
  metricValues : List (String × Value) := []
  failed : Bool := false
  failureReason : String := ""

/-- `_trial_values`: the metrics of the user come before the reserved names. -/
def TrialResult.values (trial : TrialResult) : List (String × Value) :=
  trial.metricValues ++
    [("fom", trial.fom), ("energy", trial.energy), ("time", trial.runtime),
      ("power", trial.averagePower)].filterMap fun e => e.2.map (e.1, ·)

/-- `ObjectiveSpec`, with the evaluation of its expression by `safe_eval`. -/
structure ObjectiveSpec where
  objective : List (String × Value) → Except Error Value
  minimize : Bool
  constraints : List Constraint := []
  penaltyWeight : ℚ := 1

/-- The objective in minimize sense. -/
def ObjectiveSpec.signed (spec : ObjectiveSpec) (objectiveRaw : Value) : Value :=
  if spec.minimize then objectiveRaw else objectiveRaw.map (-·)

/-- The violations of the constraints, and the sum of their positive amounts. -/
def violations (values : List (String × Value)) (objectiveScale : Value) (weight : ℚ) :
    List Constraint → Except Error (List Violation × ℚ)
  | [] => .ok ([], 0)
  | c :: constraints =>
    match values.lookup c.name with
    | none => .error (.key c.name)
    | some measured =>
      let amount := c.violation measured
      let v : Violation := ⟨amount, objectiveScale.map (· * c.scale), weight⟩
      (violations values objectiveScale weight constraints).map fun r =>
        (v :: r.1, (if Value.lt (some 0) amount then amount.getD 0 else 0) + r.2)

/-- What `_score_trial` returns, with the new `_objective_scale`. -/
structure Scored where
  score : Value
  objectiveRaw : Value
  feasible : Bool
  objectiveScale : Value

/-- `self._objective_scale or 1.0`. -/
def orOne (objectiveScale : Value) : Value :=
  if objectiveScale = some 0 then some 1 else objectiveScale

def scoreTrial (spec : ObjectiveSpec) (objectiveScale : Option Value) (trial : TrialResult) :
    Except Error Scored := do
  let values := trial.values
  let objectiveRaw ← spec.objective values
  let magnitude := objectiveRaw.map abs
  let objectiveScale := objectiveScale.elim magnitude (Value.max · magnitude)
  let (vs, totalViolation) ←
    violations values (orOne objectiveScale) spec.penaltyWeight spec.constraints
  pure ⟨Opt.score (spec.signed objectiveRaw) vs, objectiveRaw, decide (totalViolation = 0),
    objectiveScale⟩

/-! ### The run -/

/-- An entry of `evaluation_history`. -/
structure Entry where
  coordinate : List ℤ
  score : Value
  failed : Bool
  failureReason : Option String
  feasible : Bool
  objectiveRaw : Option Value
  fom : Option Value
deriving DecidableEq

/-- The policies of `--penalty`. -/
inductive Penalty where
  | auto
  | none
  | fixed (value : ℚ)

/-- The members of `BayesianOptimizer` that trials change. -/
structure Optimizer where
  evaluationHistory : List Entry := []
  objectiveScale : Option Value := none
deriving DecidableEq

/-- `_BOOTSTRAP_PENALTY`. -/
def bootstrapPenalty : ℚ := 10 ^ 9

/-- `sys.float_info.max`. -/
def floatMax : ℚ := (2 ^ 53 - 1) * 2 ^ 971

/-- `_penalty_value` of the `auto` policy. -/
def autoPenalty (history : List Entry) : Value :=
  match (history.filter fun h => !h.failed).map (·.score) with
  | [] => some bootstrapPenalty
  | first :: rest =>
    let worst := rest.foldl Value.max first
    let spread := Option.map₂ (· - ·) worst (rest.foldl Value.min first)
    let margin :=
      if Value.lt (some 0) spread then spread
      else if worst = some 0 then some 1 else worst.map abs
    some ((Option.map₂ (· + ·) worst margin).getD floatMax)

def handleFailedTrial (penalty : Penalty) (history : List Entry) (failureReason : String) :
    Except Error Value :=
  match penalty with
  | .none => .error (.optimization ("Trial failed and --penalty is 'none': " ++ failureReason))
  | .fixed value => .ok (some value)
  | .auto => .ok (autoPenalty history)

/-- Penalize a failed trial and record it. -/
def recordFailed (penalty : Penalty) (o : Optimizer) (coordinate : List ℤ)
    (failureReason : String) : Except Error Optimizer :=
  (handleFailedTrial penalty o.evaluationHistory failureReason).map fun score =>
    ⟨o.evaluationHistory ++ [⟨coordinate, score, true, some failureReason, false, none, none⟩],
      o.objectiveScale⟩

/-- The function that `gp_minimize` calls: it scores and records a trial. -/
def recordTrial (spec : ObjectiveSpec) (penalty : Penalty) (o : Optimizer)
    (t : List ℤ × TrialResult) : Except Error Optimizer :=
  if t.2.failed then recordFailed penalty o t.1 t.2.failureReason
  else match scoreTrial spec o.objectiveScale t.2 with
    | .error (.metricEvaluation ex) =>
      recordFailed penalty o t.1 ("objective/constraint evaluation failed: " ++ ex)
    | .error e => .error e
    | .ok r => .ok ⟨o.evaluationHistory ++
        [⟨t.1, r.score, false, none, r.feasible, some r.objectiveRaw, t.2.fom⟩],
        some r.objectiveScale⟩

/-- `min(pool, key=lambda h: h['score'])`. -/
def minScore (first : Entry) (rest : List Entry) : Entry :=
  rest.foldl (fun best h => if Value.lt h.score best.score then h else best) first

/-- `_select_best_entry`, with the entry that is made up for an empty history. -/
def selectBestEntry (fallback : Entry) (history : List Entry) : Except Error Entry :=
  let nonFailed := history.filter fun h => !h.failed
  match nonFailed.filter (·.feasible), nonFailed with
  | first :: rest, _ => .ok (minScore first rest)
  | [], first :: rest => .ok (minScore first rest)
  | [], [] =>
    if history = [] then .ok fallback
    else .error (.optimization "All trials failed; no successful configuration was found")

/-- `optimize`, with the trials that `gp_minimize` runs. -/
def optimize (spec : ObjectiveSpec) (penalty : Penalty) (fallback : Entry) (o : Optimizer)
    (trials : List (List ℤ × TrialResult)) : Except Error (Entry × Optimizer) := do
  let o ← trials.foldlM (recordTrial spec penalty) ⟨o.evaluationHistory, none⟩
  let best ← selectBestEntry fallback o.evaluationHistory
  pure (best, o)

/-! ### Violations -/

/-- The measured value is a number, and not the bound of a strict constraint. -/
def Constraint.Regular (c : Constraint) (measured : Value) : Prop :=
  ∃ x, measured = some x ∧ (c.op = .lt ∨ c.op = .gt → x ≠ c.value)

/-- What is not satisfied is violated by a positive amount. -/
theorem Constraint.violation_pos {c : Constraint} {measured : Value} (hregular : c.Regular measured)
    (h : c.satisfied measured = false) : ∃ a, c.violation measured = some a ∧ 0 < a := by
  obtain ⟨x, rfl, hstrict⟩ := hregular
  obtain ⟨name, op, value⟩ := c
  unfold violation
  rw [h]
  refine ⟨_, rfl, ?_⟩
  cases op with
  | le =>
    have hlt : ¬ x ≤ value := of_decide_eq_false h
    exact sub_pos.mpr (not_le.mp hlt)
  | lt =>
    have hle : ¬ x < value := of_decide_eq_false h
    exact sub_pos.mpr (lt_of_le_of_ne (not_lt.mp hle) (hstrict (.inl rfl)).symm)
  | ge =>
    have hlt : ¬ value ≤ x := of_decide_eq_false h
    exact sub_pos.mpr (not_le.mp hlt)
  | gt =>
    have hle : ¬ value < x := of_decide_eq_false h
    exact sub_pos.mpr (lt_of_le_of_ne (not_lt.mp hle) (hstrict (.inr rfl)))
  | eq =>
    have hne : ¬ x = value := of_decide_eq_false h
    exact abs_pos.mpr (sub_ne_zero.mpr hne)

/-- The values satisfy the constraint. -/
def Constraint.Holds (c : Constraint) (values : List (String × Value)) : Prop :=
  ∃ measured, values.lookup c.name = some measured ∧ c.satisfied measured = true

/-- Penalties that are all zero leave the score as it is. -/
theorem score_of_no_amount {x : ℚ} {vs : List Violation}
    (h : ∀ v ∈ vs, v.amount = some 0 ∧ ∃ scale, v.scale = some scale) :
    score (some x) vs = some x := by
  induction vs with
  | nil => rfl
  | cons v vs ih =>
    obtain ⟨hamount, scale, hscale⟩ := h v mem_cons_self
    have hpenalty : v.penalty = some 0 := by
      unfold Violation.penalty
      rw [hscale, hamount]
      simp
    unfold score at *
    rw [foldl_cons, hpenalty]
    simpa using ih fun v hv => h v (mem_cons_of_mem _ hv)

/-- The total is zero just when all constraints are satisfied, and then there is no penalty. -/
theorem violations_spec {values : List (String × Value)} {scale weight : ℚ}
    {constraints : List Constraint} {vs : List Violation} {total : ℚ}
    (hregular : ∀ c ∈ constraints, ∀ measured, values.lookup c.name = some measured →
      c.Regular measured)
    (h : violations values (some scale) weight constraints = .ok (vs, total)) :
    0 ≤ total ∧ (total = 0 ↔ ∀ c ∈ constraints, c.Holds values) ∧
      (total = 0 → ∀ v ∈ vs, v.amount = some 0 ∧ ∃ scale, v.scale = some scale) := by
  induction constraints generalizing vs total with
  | nil =>
    cases h
    simp
  | cons c constraints ih =>
    unfold violations at h
    cases hmeasured : values.lookup c.name with
    | none => rw [hmeasured] at h; cases h
    | some measured =>
      rw [hmeasured] at h
      dsimp only at h
      cases hrest : violations values (some scale) weight constraints with
      | error e => rw [hrest] at h; cases h
      | ok r =>
        obtain ⟨vs', total'⟩ := r
        rw [hrest] at h
        obtain ⟨hnonneg, htotal, hvs⟩ :=
          ih (fun c hc => hregular c (mem_cons_of_mem _ hc)) hrest
        have hc := hregular c mem_cons_self measured hmeasured
        cases hsat : c.satisfied measured with
        | true =>
          rw [Constraint.violation, if_pos hsat] at h
          have hzero : Value.lt (some 0) (some 0) = false := by decide
          simp only [hzero, Except.map, Except.ok.injEq, Prod.mk.injEq] at h
          obtain ⟨rfl, rfl⟩ := h
          have hholds : c.Holds values := ⟨measured, hmeasured, hsat⟩
          simp only [Bool.false_eq_true, if_false, zero_add, forall_mem_cons]
          exact ⟨hnonneg, by rw [htotal]; exact ⟨fun h => ⟨hholds, h⟩, And.right⟩,
            fun h => ⟨⟨trivial, _, rfl⟩, hvs h⟩⟩
        | false =>
          obtain ⟨a, ha, hpos⟩ := Constraint.violation_pos hc hsat
          rw [ha] at h
          have hlt : Value.lt (some 0) (some a) = true := decide_eq_true hpos
          simp only [hlt, Except.map, Except.ok.injEq, Prod.mk.injEq] at h
          obtain ⟨rfl, rfl⟩ := h
          simp only [if_true, Option.getD_some]
          have hsum : a + total' ≠ 0 := by linarith
          refine ⟨by linarith, ⟨fun h => absurd h hsum, fun h => ?_⟩, fun h => absurd h hsum⟩
          -- the constraint is not satisfied
          obtain ⟨measured', hmeasured', hsat'⟩ := h c mem_cons_self
          rw [hmeasured] at hmeasured'
          rw [← Option.some.inj hmeasured', hsat] at hsat'
          cases hsat'

/-! ### Recorded trials -/

/-- A trial that does not fail: it is evaluated, and so is its objective. -/
def Succeeds (spec : ObjectiveSpec) (trial : TrialResult) : Prop :=
  trial.failed = false ∧ ∃ objectiveRaw, spec.objective trial.values = .ok objectiveRaw

/-- A trial that does not fail and satisfies every constraint. -/
def Feasible (spec : ObjectiveSpec) (trial : TrialResult) : Prop :=
  Succeeds spec trial ∧ ∀ c ∈ spec.constraints, c.Holds trial.values

/-- The objective is a number, and so is every measured value that a constraint speaks of; none is
the bound of a strict constraint. -/
structure Regular (spec : ObjectiveSpec) (trial : TrialResult) : Prop where
  objective : ∀ objectiveRaw, spec.objective trial.values = .ok objectiveRaw → objectiveRaw ≠ none
  measured : ∀ c ∈ spec.constraints, ∀ measured, trial.values.lookup c.name = some measured →
    c.Regular measured

/-- The entry of a trial. -/
structure Recorded (spec : ObjectiveSpec) (t : List ℤ × TrialResult) (e : Entry) : Prop where
  coordinate : e.coordinate = t.1
  feasible : e.feasible = true ↔ Feasible spec t.2
  failed : e.failed = false ↔ Succeeds spec t.2
  objective : Succeeds spec t.2 →
    ∃ x, spec.objective t.2.values = .ok (some x) ∧ e.objectiveRaw = some (some x) ∧
      (Feasible spec t.2 → e.score = spec.signed (some x))

/-- The scale is not NaN. -/
def Scaled (o : Optimizer) : Prop := ∀ scale, o.objectiveScale = some scale → scale ≠ none

variable {spec : ObjectiveSpec} {penalty : Penalty} {o o' : Optimizer}

theorem recordFailed_spec     {t : List ℤ × TrialResult} {failureReason : String} (hfailed : ¬ Succeeds spec t.2)
    (h : recordFailed penalty o t.1 failureReason = .ok o') :
    ∃ e, o'.evaluationHistory = o.evaluationHistory ++ [e] ∧ Recorded spec t e ∧
      o'.objectiveScale = o.objectiveScale := by
  unfold recordFailed at h
  cases hscore : handleFailedTrial penalty o.evaluationHistory failureReason with
  | error e => rw [hscore] at h; cases h
  | ok score =>
    rw [hscore] at h
    cases h
    refine ⟨_, rfl, ⟨rfl, ?_, ?_, fun hs => absurd hs hfailed⟩, rfl⟩
    · exact ⟨fun h => (nomatch h), fun h => absurd h.1 hfailed⟩
    · exact ⟨fun h => (nomatch h), fun h => absurd h hfailed⟩

theorem Value.max_ne_none {a b : Value} (ha : a ≠ none) (hb : b ≠ none) : Value.max a b ≠ none := by
  unfold Value.max
  split_ifs <;> assumption

theorem violations_error {values : List (String × Value)} {scale : Value} {weight : ℚ}
    {constraints : List Constraint} {e : Error}
    (h : violations values scale weight constraints = .error e) : ∃ name, e = .key name := by
  induction constraints with
  | nil => cases h
  | cons c constraints ih =>
    unfold violations at h
    cases hmeasured : values.lookup c.name with
    | none =>
      rw [hmeasured] at h
      cases h
      exact ⟨_, rfl⟩
    | some measured =>
      rw [hmeasured] at h
      dsimp only at h
      cases hrest : violations values scale weight constraints with
      | ok r => rw [hrest] at h; cases h
      | error e' =>
        rw [hrest] at h
        cases h
        exact ih hrest

variable {objectiveScale : Option Value} {trial : TrialResult}

/-- Only an objective that is not evaluated makes a trial fail when it is scored. -/
theorem scoreTrial_metricEvaluation
    {ex : String}
    (h : scoreTrial spec objectiveScale trial = .error (.metricEvaluation ex)) :
    ¬ Succeeds spec trial := by
  rintro ⟨-, objectiveRaw, hobjective⟩
  unfold scoreTrial at h
  simp only [hobjective] at h
  cases hvs : violations trial.values
      (orOne (objectiveScale.elim (objectiveRaw.map abs) (Value.max · (objectiveRaw.map abs))))
      spec.penaltyWeight spec.constraints with
  | ok r =>
    simp only [bind, Except.bind, hvs] at h
    cases h
  | error e =>
    simp only [bind, Except.bind, hvs] at h
    obtain ⟨name, rfl⟩ := violations_error hvs
    cases h

theorem scoreTrial_ok
    {r : Scored} (h : scoreTrial spec objectiveScale trial = .ok r) :
    ∃ objectiveRaw, spec.objective trial.values = .ok objectiveRaw := by
  unfold scoreTrial at h
  cases hobjective : spec.objective trial.values with
  | error e =>
    simp only [hobjective] at h
    cases h
  | ok objectiveRaw => exact ⟨_, rfl⟩

theorem scoreTrial_spec
    {r : Scored} (hregular : Regular spec trial)
    (hscale : ∀ scale, objectiveScale = some scale → scale ≠ none)
    (h : scoreTrial spec objectiveScale trial = .ok r) :
    ∃ x, spec.objective trial.values = .ok (some x) ∧ r.objectiveRaw = some x ∧
      r.objectiveScale ≠ none ∧
      (r.feasible = true ↔ ∀ c ∈ spec.constraints, c.Holds trial.values) ∧
      (r.feasible = true → r.score = spec.signed (some x)) := by
  unfold scoreTrial at h
  cases hobjective : spec.objective trial.values with
  | error e =>
    simp only [hobjective] at h
    cases h
  | ok objectiveRaw =>
    obtain ⟨x, rfl⟩ := Option.ne_none_iff_exists'.mp (hregular.objective _ hobjective)
    simp only [hobjective, bind, Except.bind] at h
    have hmax : objectiveScale.elim ((some x).map abs) (Value.max · ((some x).map abs)) ≠ none := by
      cases hold : objectiveScale with
      | none => exact Option.some_ne_none _
      | some scale => exact Value.max_ne_none (hscale _ hold) (Option.some_ne_none _)
    obtain ⟨scale, hmaxeq⟩ := Option.ne_none_iff_exists'.mp hmax
    obtain ⟨scale', hor⟩ : ∃ scale', orOne (some scale) = some scale' := by
      unfold orOne
      split_ifs
      · exact ⟨_, rfl⟩
      · exact ⟨_, rfl⟩
    rw [hmaxeq, hor] at h
    cases hvs : violations trial.values (some scale') spec.penaltyWeight spec.constraints with
    | error e => rw [hvs] at h; cases h
    | ok r' =>
      rw [hvs] at h
      cases h
      obtain ⟨-, htotal, hzero⟩ := violations_spec hregular.measured hvs
      refine ⟨x, rfl, rfl, Option.some_ne_none _, ?_, fun hfeasible => ?_⟩
      · rw [decide_eq_true_iff]
        exact htotal
      · obtain ⟨y, hy⟩ : ∃ y, spec.signed (some x) = some y := by
          unfold ObjectiveSpec.signed
          split_ifs
          · exact ⟨_, rfl⟩
          · exact ⟨_, rfl⟩
        dsimp only
        rw [hy]
        exact score_of_no_amount (hzero (of_decide_eq_true hfeasible))

theorem recordTrial_spec     {t : List ℤ × TrialResult} (hregular : Succeeds spec t.2 → Regular spec t.2)
    (hscaled : Scaled o) (h : recordTrial spec penalty o t = .ok o') :
    ∃ e, o'.evaluationHistory = o.evaluationHistory ++ [e] ∧ Recorded spec t e ∧ Scaled o' := by
  unfold recordTrial at h
  have hfail : ∀ {reason : String}, ¬ Succeeds spec t.2 →
      recordFailed penalty o t.1 reason = .ok o' →
      ∃ e, o'.evaluationHistory = o.evaluationHistory ++ [e] ∧ Recorded spec t e ∧ Scaled o' := by
    intro reason hnot hrecord
    obtain ⟨e, hhistory, hrecorded, hscale⟩ := recordFailed_spec hnot hrecord
    refine ⟨e, hhistory, hrecorded, ?_⟩
    unfold Scaled at *
    rwa [hscale]
  split_ifs at h with hfailed
  · exact hfail (fun hs => by rw [hs.1] at hfailed; cases hfailed) h
  · cases hscore : scoreTrial spec o.objectiveScale t.2 with
    | error e =>
      rw [hscore] at h
      cases e with
      | metricEvaluation ex => exact hfail (scoreTrial_metricEvaluation hscore) h
      | metricSpec what => cases h
      | key name => cases h
      | optimization what => cases h
    | ok r =>
      rw [hscore] at h
      cases h
      have hsucceeds : Succeeds spec t.2 := ⟨by simpa using hfailed, scoreTrial_ok hscore⟩
      obtain ⟨x, hx, hraw, hscale, hfeasible, hsigned⟩ :=
        scoreTrial_spec (hregular hsucceeds) hscaled hscore
      have hiff : r.feasible = true ↔ Feasible spec t.2 :=
        hfeasible.trans ⟨fun h => ⟨hsucceeds, h⟩, And.right⟩
      refine ⟨_, rfl, ⟨rfl, hiff, ⟨fun _ => hsucceeds, fun _ => rfl⟩, fun _ => ?_⟩, ?_⟩
      · exact ⟨x, hx, congrArg some hraw, fun h => hsigned (hiff.mpr h)⟩
      · intro scale heq
        rw [← Option.some.inj heq]
        exact hscale

variable {trials : List (List ℤ × TrialResult)}

theorem recordTrials_spec     (hregular : ∀ t ∈ trials, Succeeds spec t.2 → Regular spec t.2) (hscaled : Scaled o)
    (h : trials.foldlM (recordTrial spec penalty) o = .ok o') :
    ∃ entries, o'.evaluationHistory = o.evaluationHistory ++ entries ∧
      List.Forall₂ (Recorded spec) trials entries := by
  induction trials generalizing o with
  | nil =>
    cases h
    exact ⟨[], (append_nil _).symm, .nil⟩
  | cons t trials ih =>
    rw [foldlM_cons] at h
    cases hstep : recordTrial spec penalty o t with
    | error e => rw [hstep] at h; cases h
    | ok o₁ =>
      rw [hstep] at h
      obtain ⟨e, hhistory, hrecorded, hscaled₁⟩ :=
        recordTrial_spec (hregular t mem_cons_self) hscaled hstep
      obtain ⟨entries, hentries, hall⟩ :=
        ih (fun t ht => hregular t (mem_cons_of_mem _ ht)) hscaled₁ h
      refine ⟨e :: entries, ?_, .cons hrecorded hall⟩
      rw [hentries, hhistory, append_assoc]
      rfl

/-! ### The selected entry -/

theorem minScore_mem (first : Entry) (rest : List Entry) : minScore first rest ∈ first :: rest := by
  induction rest generalizing first with
  | nil => exact mem_cons_self
  | cons h rest ih =>
    change minScore (if _ then _ else _) rest ∈ _
    split_ifs
    · exact mem_cons_of_mem _ (ih h)
    · rcases mem_cons.mp (ih first) with heq | hmem
      · rw [heq]
        exact mem_cons_self
      · exact mem_cons_of_mem _ (mem_cons_of_mem _ hmem)

theorem minScore_le {first : Entry} {rest : List Entry} {key : Entry → ℚ}
    (hkey : ∀ h ∈ first :: rest, h.score = some (key h)) :
    ∀ h ∈ first :: rest, key (minScore first rest) ≤ key h := by
  induction rest generalizing first with
  | nil =>
    intro h hmem
    rw [mem_singleton.mp hmem]
    exact le_refl _
  | cons next rest ih =>
    have hfirst := hkey first mem_cons_self
    have hnext := hkey next (mem_cons_of_mem _ mem_cons_self)
    intro h hmem
    unfold minScore
    rw [foldl_cons, hfirst, hnext]
    have hlt : Value.lt (some (key next)) (some (key first)) = decide (key next < key first) := rfl
    rw [hlt]
    split_ifs with hless
    · have hle := @ih next fun h hh => hkey h (mem_cons_of_mem _ hh)
      rcases mem_cons.mp hmem with rfl | hmem
      · exact (hle next mem_cons_self).trans (of_decide_eq_true hless).le
      · exact hle h hmem
    · have hle := @ih first fun h hh => by
        rcases mem_cons.mp hh with rfl | hh
        · exact hfirst
        · exact hkey h (mem_cons_of_mem _ (mem_cons_of_mem _ hh))
      rcases mem_cons.mp hmem with rfl | hmem
      · exact hle h mem_cons_self
      rcases mem_cons.mp hmem with rfl | hmem
      · refine (hle first mem_cons_self).trans (not_lt.mp fun h => ?_)
        exact hless (decide_eq_true h)
      · exact hle h (mem_cons_of_mem _ hmem)

variable {fallback best : Entry}

theorem selectBestEntry_spec {history : List Entry} {key : Entry → ℚ}
    (hne : history ≠ []) (hfailed : ∀ e ∈ history, e.feasible = true → e.failed = false)
    (hkey : ∀ e ∈ history, e.feasible = true → e.score = some (key e))
    (h : selectBestEntry fallback history = .ok best) :
    best ∈ history ∧ best.failed = false ∧ ∀ e ∈ history, e.feasible = true →
      best.feasible = true ∧ key best ≤ key e := by
  have hpool : ∀ e ∈ (history.filter fun h => !h.failed).filter (·.feasible),
      e ∈ history ∧ e.failed = false ∧ e.feasible = true := by
    intro e he
    obtain ⟨he, hfeasible⟩ := mem_filter.mp he
    obtain ⟨he, hfail⟩ := mem_filter.mp he
    exact ⟨he, by simpa using hfail, hfeasible⟩
  unfold selectBestEntry at h
  cases hfeasible : (history.filter fun h => !h.failed).filter (·.feasible) with
  | cons first rest =>
    simp only [hfeasible] at h
    rw [hfeasible] at hpool
    cases h
    obtain ⟨hmem, hfail, hfeas⟩ := hpool _ (minScore_mem first rest)
    refine ⟨hmem, hfail, fun e he hefeas => ⟨hfeas, ?_⟩⟩
    refine minScore_le (fun e he => hkey e (hpool e he).1 (hpool e he).2.2) e ?_
    rw [← hfeasible]
    refine mem_filter.mpr ⟨mem_filter.mpr ⟨he, ?_⟩, hefeas⟩
    rw [hfailed e he hefeas]
    rfl
  | nil =>
    have hnone : ∀ e ∈ history, e.feasible ≠ true := by
      intro e he hefeas
      refine filter_eq_nil_iff.mp hfeasible e (mem_filter.mpr ⟨he, ?_⟩) hefeas
      rw [hfailed e he hefeas]
      rfl
    simp only [hfeasible] at h
    cases hsome : history.filter fun h => !h.failed with
    | nil =>
      simp only [hsome, if_neg hne] at h
      cases h
    | cons first rest =>
      simp only [hsome] at h
      cases h
      have hmem := minScore_mem first rest
      rw [← hsome] at hmem
      obtain ⟨hmem, hfail⟩ := mem_filter.mp hmem
      exact ⟨hmem, by simpa using hfail, fun e he hefeas => absurd hefeas (hnone e he)⟩

/-! ### The optimizer's answer -/

/-- `x` is at least as good as `y`. -/
def ObjectiveSpec.AtLeast (spec : ObjectiveSpec) (x y : ℚ) : Prop :=
  if spec.minimize then x ≤ y else y ≤ x

/-- The entry of a feasible trial of the run with the best objective of the feasible ones. -/
def Best (spec : ObjectiveSpec) (trials : List (List ℤ × TrialResult)) (e : Entry) : Prop :=
  e.feasible = true ∧ ∃ t ∈ trials, Feasible spec t.2 ∧ e.coordinate = t.1 ∧
    ∃ x, spec.objective t.2.values = .ok (some x) ∧ e.objectiveRaw = some (some x) ∧
      ∀ t' ∈ trials, Feasible spec t'.2 → ∀ y, spec.objective t'.2.values = .ok (some y) →
        spec.AtLeast x y

/-- What a run is meant to do: the entries say which trials are feasible; a best feasible trial is
returned if there is a feasible one. -/
structure Optimized (spec : ObjectiveSpec) (trials : List (List ℤ × TrialResult)) (e : Entry)
    (history : List Entry) : Prop where
  recorded : List.Forall₂ (fun t e => e.feasible = true ↔ Feasible spec t.2) trials history
  best : (∃ t ∈ trials, Feasible spec t.2) → Best spec trials e
  feasible : trials ≠ [] → (e.feasible = true ↔ ∃ t ∈ trials, Feasible spec t.2)

/-- The least score is the best objective. -/
theorem atLeast_of_signed {x y : ℚ}
    (h : (spec.signed (some x)).getD 0 ≤ (spec.signed (some y)).getD 0) : spec.AtLeast x y := by
  unfold ObjectiveSpec.signed at h
  unfold ObjectiveSpec.AtLeast
  cases hmin : spec.minimize with
  | true => simpa [hmin] using h
  | false => simpa [hmin] using h

theorem exists_entry {α β : Type} {R : α → β → Prop} {as : List α} {bs : List β}
    (h : List.Forall₂ R as bs) {a : α} (ha : a ∈ as) : ∃ b ∈ bs, R a b := by
  induction h with
  | nil => cases ha
  | @cons a' b as bs hR hall ih =>
    rcases mem_cons.mp ha with rfl | ha
    · exact ⟨b, mem_cons_self, hR⟩
    · obtain ⟨b', hb', hR'⟩ := ih ha
      exact ⟨b', mem_cons_of_mem _ hb', hR'⟩

theorem optimized_of_recorded
    {history : List Entry}
    (hall : List.Forall₂ (Recorded spec) trials history)
    (h : selectBestEntry fallback history = .ok best) : Optimized spec trials best history := by
  have hrecorded : List.Forall₂ (fun t e => e.feasible = true ↔ Feasible spec t.2) trials history :=
    hall.imp fun _ _ h => h.feasible
  by_cases htrials : trials = []
  · refine ⟨hrecorded, fun ⟨t, ht, _⟩ => ?_, fun hne => absurd htrials hne⟩
    rw [htrials] at ht
    cases ht
  have hne : history ≠ [] := by
    rintro rfl
    exact htrials (forall₂_nil_right_iff.mp hall)
  have htrial : ∀ e ∈ history, ∃ t ∈ trials, Recorded spec t e := fun e he =>
    exists_entry hall.flip he
  have hscore : ∀ e ∈ history, e.feasible = true → e.score = some (e.score.getD 0) := by
    intro e he hfeas
    obtain ⟨t, -, hrec⟩ := htrial e he
    have hfeas' := hrec.feasible.mp hfeas
    obtain ⟨x, -, -, hx⟩ := hrec.objective hfeas'.1
    rw [hx hfeas']
    unfold ObjectiveSpec.signed
    split_ifs <;> rfl
  obtain ⟨hmem, -, hbest⟩ := selectBestEntry_spec hne (fun e he hfeas => by
    obtain ⟨t, -, hrec⟩ := htrial e he
    exact hrec.failed.mpr (hrec.feasible.mp hfeas).1) hscore h
  obtain ⟨t, ht, hrec⟩ := htrial best hmem
  have hfeasible : (∃ t ∈ trials, Feasible spec t.2) → best.feasible = true := by
    rintro ⟨t', ht', hfeas⟩
    obtain ⟨e, he, hrec'⟩ := exists_entry hall ht'
    exact (hbest e he (hrec'.feasible.mpr hfeas)).1
  refine ⟨hrecorded, fun hex => ?_, fun _ => ⟨fun hfeas => ⟨t, ht, hrec.feasible.mp hfeas⟩,
    hfeasible⟩⟩
  have hfeas := hrec.feasible.mp (hfeasible hex)
  obtain ⟨x, hx, hraw, hsigned⟩ := hrec.objective hfeas.1
  refine ⟨hfeasible hex, t, ht, hfeas, hrec.coordinate, x, hx, hraw, ?_⟩
  intro t' ht' hfeas' y hy
  obtain ⟨e, he, hrec'⟩ := exists_entry hall ht'
  obtain ⟨y', hy', -, hsigned'⟩ := hrec'.objective hfeas'.1
  obtain rfl : y' = y := by
    rw [hy] at hy'
    exact (Option.some.inj (Except.ok.inj hy')).symm
  have hle := (hbest e he (hrec'.feasible.mpr hfeas')).2
  rw [hsigned hfeas, hsigned' hfeas'] at hle
  exact atLeast_of_signed hle

theorem optimize_optimized     {o : Optimizer}
    (hregular : ∀ t ∈ trials, Succeeds spec t.2 → Regular spec t.2)
    (h : optimize spec penalty fallback {} trials = .ok (best, o)) :
    Optimized spec trials best o.evaluationHistory := by
  unfold optimize at h
  cases hrun : trials.foldlM (recordTrial spec penalty)
      ⟨({} : Optimizer).evaluationHistory, none⟩ with
  | error e => rw [hrun] at h; cases h
  | ok o₁ =>
    rw [hrun] at h
    simp only [bind, Except.bind] at h
    cases hselect : selectBestEntry fallback o₁.evaluationHistory with
    | error e => rw [hselect] at h; cases h
    | ok e =>
      rw [hselect] at h
      cases h
      have hscaled : Scaled ⟨[], none⟩ := by
        intro scale h
        cases h
      obtain ⟨entries, hhistory, hall⟩ := recordTrials_spec hregular hscaled hrun
      rw [nil_append] at hhistory
      subst hhistory
      exact optimized_of_recorded hall hselect

theorem Best.objectiveRaw_eq {trials trials' : List (List ℤ × TrialResult)}
    {e e' : Entry} (hperm : trials.Perm trials') (h : Best spec trials e)
    (h' : Best spec trials' e') : e.objectiveRaw = e'.objectiveRaw := by
  obtain ⟨-, t, ht, hfeas, -, x, hx, hraw, hbest⟩ := h
  obtain ⟨-, t', ht', hfeas', -, x', hx', hraw', hbest'⟩ := h'
  have hle := hbest t' (hperm.mem_iff.mpr ht') hfeas' x' hx'
  have hge := hbest' t (hperm.mem_iff.mp ht) hfeas x hx
  rw [hraw, hraw']
  unfold ObjectiveSpec.AtLeast at hle hge
  split_ifs at hle hge
  · rw [le_antisymm hle hge]
  · rw [le_antisymm hge hle]

/-- In a first run in which neither NaN nor the bound of a strict constraint is measured, the trials
are recorded as feasible that are, and a best one of these is returned, whose objective does not
depend on the order of the trials; nor does the order decide whether a feasible one is returned. -/
theorem optimize_spec (spec : ObjectiveSpec) (penalty : Penalty) (fallback best best' : Entry)
    (trials trials' : List (List ℤ × TrialResult)) (o o' : Optimizer)
    (hregular : ∀ t ∈ trials, Succeeds spec t.2 → Regular spec t.2)
    (h : optimize spec penalty fallback {} trials = .ok (best, o)) (hperm : trials.Perm trials')
    (h' : optimize spec penalty fallback {} trials' = .ok (best', o')) :
    Optimized spec trials best o.evaluationHistory ∧ best.feasible = best'.feasible ∧
      ((∃ t ∈ trials, Feasible spec t.2) → best.objectiveRaw = best'.objectiveRaw) := by
  have hopt := optimize_optimized hregular h
  have hopt' := optimize_optimized (fun t ht => hregular t (hperm.mem_iff.mpr ht)) h'
  have hexists : (∃ t ∈ trials, Feasible spec t.2) ↔ ∃ t ∈ trials', Feasible spec t.2 :=
    exists_congr fun t => and_congr_left' hperm.mem_iff
  refine ⟨hopt, ?_, fun hex => (hopt.best hex).objectiveRaw_eq hperm (hopt'.best (hexists.mp hex))⟩
  by_cases htrials : trials = []
  · subst htrials
    rw [← hperm.nil_eq, h] at h'
    cases h'
    rfl
  · have htrials' : trials' ≠ [] := fun heq => htrials (by rw [heq] at hperm; exact hperm.eq_nil)
    rw [Bool.eq_iff_iff, hopt.feasible htrials, hopt'.feasible htrials', hexists]

/-- The energy is minimized. -/
def energySpec (constraints : List Constraint) : ObjectiveSpec where
  objective values := (values.lookup "energy").elim
    (.error (.metricEvaluation "expression references undefined metric 'energy'")) .ok
  minimize := true
  constraints := constraints

/-- A trial with an energy and a figure of merit. -/
def energyTrial (energy fom : Value) : List ℤ × TrialResult :=
  ([0], { energy := some energy, fom := some fom })

/-- Two trials, the second with less energy and too low a figure of merit. -/
theorem optimize_spec_two :
    let feasible (score : ℚ) : Entry :=
      ⟨[0], some score, false, none, true, some (some 8), some (some 120)⟩
    let infeasible (score : ℚ) : Entry :=
      ⟨[0], some score, false, none, false, some (some 5), some (some 90)⟩
    Optimized (energySpec [⟨"fom", .ge, 100⟩])
      [energyTrial (some 8) (some 120), energyTrial (some 5) (some 90)] (feasible 8)
      [feasible 8, infeasible 5.8] := by
  intro feasible infeasible
  refine (optimize_spec (energySpec [⟨"fom", .ge, 100⟩]) .auto
    ⟨[], none, false, none, true, none, none⟩ (feasible 8) (feasible 8)
    [energyTrial (some 8) (some 120), energyTrial (some 5) (some 90)]
    [energyTrial (some 5) (some 90), energyTrial (some 8) (some 120)]
    ⟨[feasible 8, infeasible 5.8], some (some 8)⟩ ⟨[infeasible 5.5, feasible 8], some (some 8)⟩
    ?_ (by decide +kernel) (List.Perm.swap _ _ _) (by decide +kernel)).1
  have hregular : ∀ energy fom : ℚ,
      Regular (energySpec [⟨"fom", .ge, 100⟩]) (energyTrial (some energy) (some fom)).2 := by
    refine fun energy fom => ⟨fun objectiveRaw h => ?_, fun c hc measured h => ?_⟩
    · cases h
      exact Option.some_ne_none _
    · obtain rfl := mem_singleton.mp hc
      cases h
      exact ⟨fom, rfl, by rintro (h | h) <;> cases h⟩
  intro t ht _
  rcases mem_cons.mp ht with rfl | ht
  · exact hregular 8 120
  · rw [mem_singleton.mp ht]
    exact hregular 5 90

/-- What a run returns: the objective, and which of its trials are recorded as feasible. -/
def returned (spec : ObjectiveSpec) (o : Optimizer) (trials : List (List ℤ × TrialResult)) :
    Option (Option Value × List Bool) :=
  (optimize spec .auto ⟨[], none, false, none, true, none, none⟩ o trials).toOption.map
    fun r => (r.1.objectiveRaw, r.2.evaluationHistory.map (·.feasible))

/-- A trial on a strict bound and one that measures NaN are recorded as feasible; a NaN objective is
returned though the other trial is feasible, and so is the entry of an earlier run; of two
infeasible trials the first one is returned, in either order. -/
theorem optimize_unspecified :
    Constraint.satisfied ⟨"fom", .gt, 100⟩ (some 100) = false ∧
      returned (energySpec [⟨"fom", .gt, 100⟩]) {} [energyTrial (some 1) (some 100)] =
        some (some (some 1), [true]) ∧
    Constraint.satisfied ⟨"fom", .ge, 100⟩ none = false ∧
      returned (energySpec [⟨"fom", .ge, 100⟩]) {} [energyTrial (some 1) none] =
        some (some (some 1), [true]) ∧
    returned (energySpec []) {} [energyTrial none none, energyTrial (some 5) none] =
      some (some none, [true, true]) ∧
    (∀ o, optimize (energySpec []) .auto ⟨[], none, false, none, true, none, none⟩ {}
        [energyTrial (some 1) none] =
          .ok (⟨[0], some 1, false, none, true, some (some 1), some none⟩, o) →
      returned (energySpec []) o [energyTrial (some 5) none] = some (some (some 1), [true, true])) ∧
    returned (energySpec [⟨"fom", .ge, 100⟩]) {}
        [energyTrial (some 1) (some 0), energyTrial (some 100) (some 99.9)] =
      some (some (some 1), [false, false]) ∧
    returned (energySpec [⟨"fom", .ge, 100⟩]) {}
        [energyTrial (some 100) (some 99.9), energyTrial (some 1) (some 0)] =
      some (some (some 100), [false, false]) := by
  refine ⟨by decide +kernel, by decide +kernel, by decide +kernel, by decide +kernel,
    by decide +kernel, ?_, by decide +kernel, by decide +kernel⟩
  intro o h
  cases h
  decide +kernel

end Geopm.Opt
