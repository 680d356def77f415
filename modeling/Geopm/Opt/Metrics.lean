import Geopm.Lib.Definitions
import Geopm.Lib.Fallible

/-!
# Named metrics

A metric is scraped from the output of a trial, sampled from a signal, or derived from other metrics
by an arithmetic expression.  The arithmetic of Python is a parameter.

* `Expr`, `safeEval` : expressions, and their restricted evaluation;
* `Provider`, `Measured`, `Provider.evaluate` : the sources of metrics, and what a trial measures;
* `buildObjective` : the checks of the `--metric` definitions, and the objective;
* `evaluateMetricMap` : the loop that evaluates the definitions in the order of their references;
* `trialValues`, `objectiveValue` : the objective of a trial.
-/

namespace Geopm.Metrics

/-- What Python raises: an `ArithmeticError`, the errors of `metrics` and of the optimizer, and other
ones. -/
inductive Raised where
  | arithmetic (what : String)
  | metricEvaluation (what : String)
  | metricSpec (what : String)
  | valueError (what : String)
  | recoverable (what : String)
  | other (what : String)
deriving DecidableEq

/-! ### Expressions -/

/-- The keys of `_BINARY_OPS`. -/
inductive BinaryOp where
  | add
  | sub
  | mult
  | div
  | floorDiv
  | mod
  | pow
deriving DecidableEq

/-- The keys of `_UNARY_OPS`. -/
inductive UnaryOp where
  | uAdd
  | uSub
deriving DecidableEq

/-- The trees that `_expr_names` accepts; a number stands for its literal. -/
inductive Expr where
  | constant (literal : String)
  | name (id : String)
  | binOp (op : BinaryOp) (left right : Expr)
  | unaryOp (op : UnaryOp) (operand : Expr)
deriving DecidableEq

/-- `_expr_names`. -/
def Expr.names : Expr → List String
  | constant _ => []
  | name id => [id]
  | binOp _ left right => left.names ++ right.names
  | unaryOp _ operand => operand.names

/-- A text, with its tree if it has one that is accepted. -/
structure Expression where
  text : String
  tree : Option Expr
deriving DecidableEq

/-- The keywords of Python. -/
def keywords : List String :=
  ["False", "None", "True", "and", "as", "assert", "async", "await", "break", "class", "continue",
    "def", "del", "elif", "else", "except", "finally", "for", "from", "global", "if", "import", "in",
    "is", "lambda", "nonlocal", "not", "or", "pass", "raise", "return", "try", "while", "with",
    "yield"]

/-- A name as an expression; a keyword is no name. -/
def nameExpression (name : String) : Expression :=
  ⟨name, if name ∈ keywords then none else some (.name name)⟩

/-- The arithmetic of Python, over its floats `V` and the numbers `W` that operations on them give. -/
structure Arithmetic (V W : Type) where
  number : String → Except Raised W
  ofFloat : V → W
  binary : BinaryOp → W → W → Except Raised W
  unary : UnaryOp → W → W
  toFloat : W → Except Raised V
  toFloat_ofFloat : ∀ v, toFloat (ofFloat v) = .ok v

section Evaluate

variable {V W : Type} (a : Arithmetic V W) (values : String → Option V)

/-- `evaluate` in `safe_eval`. -/
def Expr.evaluate : Expr → Except Raised W
  | constant literal => a.number literal
  | name id =>
    match values id with
    | none => .error (.metricEvaluation s!"expression references undefined metric '{id}'")
    | some v => .ok (a.ofFloat v)
  | binOp op left right => do
    let x ← left.evaluate
    let y ← right.evaluate
    a.binary op x y
  | unaryOp op operand => operand.evaluate.map (a.unary op)

def safeEval (expression : Expression) : Except Raised V :=
  let text := expression.text
  match expression.tree with
  | none => .error (.metricSpec s!"invalid expression '{text}'")
  | some tree =>
    match tree.evaluate a values >>= a.toFloat with
    | .error (.arithmetic ex) =>
      .error (.metricEvaluation s!"cannot evaluate expression '{text}': {ex}")
    | result => result

end Evaluate

/-! ### Providers -/

/-- The providers, by what they are made of. -/
inductive Provider where
  | regex (pattern : String)
  | signal (name domain : String) (aggregation : Option String)
  | expr (expression : Expression)
deriving DecidableEq

/-- `references`. -/
def Provider.references : Provider → List String
  | expr expression => (expression.tree.map Expr.names).getD []
  | _ => []

def Provider.needsSession : Provider → Bool
  | signal .. => true
  | _ => false

/-- What is measured in a trial: the first group of a match of a pattern in the output, or else the
whole match (`none` for a group that takes no part in it), the float that a text is, what a signal
provider makes of the report, and the reserved quantities. -/
structure Measured (V : Type) where
  stdout : String
  search : String → String → Option (Option String)
  float : String → Option V
  signal : String → String → Option String → Except Raised V
  energy : V
  power : V
  time : V

section Measure

variable {V W : Type}

/-- `RegexProvider.evaluate`. -/
def Measured.regex (m : Measured V) (pattern : String) : Except Raised V :=
  match m.search pattern m.stdout with
  | none => .error (.metricEvaluation s!"could not extract metric using pattern: {pattern}")
  | some none => .error (.other "float() argument must be a string or a real number, not 'NoneType'")
  | some (some text) =>
    match m.float text with
    | some v => .ok v
    | none => .error (.metricEvaluation s!"could not convert extracted value to float: {text}")

/-- `_extract_metric`, and the check before it. -/
def Measured.extractMetric (m : Measured V) (pattern : String) : Except Raised V :=
  if m.stdout.isEmpty then .error (.recoverable "Application produced no output")
  else match m.search pattern m.stdout with
    | none =>
      .error (.recoverable s!"Could not extract metric from output using pattern: {pattern}")
    | some none =>
      .error (.other "float() argument must be a string or a real number, not 'NoneType'")
    | some (some text) =>
      match m.float text with
      | some v => .ok v
      | none => .error (.recoverable s!"Could not convert extracted value to float: {text}")

/-- `evaluate` of a provider. -/
def Provider.evaluate (a : Arithmetic V W) (m : Measured V) (values : String → Option V) :
    Provider → Except Raised V
  | regex pattern => m.regex pattern
  | signal name domain aggregation => m.signal name domain aggregation
  | expr expression => safeEval a values expression

end Measure

/-! ### The objective -/

/-- A metric map, in the order of the definitions. -/
abbrev MetricMap := List (String × Provider)

/-- `AGGREGATIONS`. -/
def aggregations : List String := ["delta", "mean", "max", "min"]

/-- `SIGNAL_DOMAINS`. -/
def signalDomains : List String := ["board", "gpu", "cpu"]

/-- `IMMUTABLE_METRICS`. -/
def immutableMetrics : List String := ["time"]

/-- The checks of `parse_metric_spec` on a definition. -/
def checkMetric (name : String) (provider : Provider) : Except Raised Unit :=
  if name ∈ immutableMetrics then
    .error (.metricSpec s!"metric name '{name}' is reserved and provided automatically")
  else match provider with
    | .regex _ => .ok ()
    | .signal _ domain aggregation =>
      match aggregation.filter fun aggregation => decide (aggregation ∉ aggregations) with
      | some aggregation => .error (.metricSpec s!"unknown aggregation '{aggregation}'")
      | none =>
        if domain ∈ signalDomains then .ok ()
        else .error
          (.metricSpec s!"metric '{name}' uses unsupported signal domain '{domain}'")
    | .expr expression =>
      let text := expression.text
      if expression.tree.isSome then .ok ()
      else .error (.metricSpec s!"invalid expression '{text}'")

/-- `ObjectiveSpec`, as far as it is about metrics. -/
structure Objective where
  objectiveExpr : Expression
  minimize : Bool
  label : String
  needsSession : Bool
  requiresFom : Bool
  efficiencyDomain : Option String
  metricMap : MetricMap

/-- The provider of a metric. -/
def MetricMap.provider (metricMap : MetricMap) (name : String) : Option Provider :=
  metricMap.lookup name

def availableNames (metricMap : MetricMap) (energyDomain : Option String) : List String :=
  metricMap.map Prod.fst ++ immutableMetrics ++
    if energyDomain.isSome then ["power", "energy"] else []

/-- `_unavailable`. -/
def unavailable (ref : String) : Option String :=
  if ref = "fom" then
    some "'fom' is available only when a metric named 'fom' is defined, e.g. fom=regex:'PATTERN'"
  else if ref ∈ ["power", "energy"] then some (s!"'{ref}' is not sampled here; pass --energy-domain " ++
    "<board|cpu|gpu> to measure it, or define it explicitly, e.g. " ++
    s!"{ref}=signal:<SIGNAL>@board:mean")
  else none

/-- The loop over the definitions: each is checked, and none is defined twice. -/
def addMetrics : MetricMap → MetricMap → Except Raised MetricMap
  | metricMap, [] => .ok metricMap
  | metricMap, (name, provider) :: specs => do
    checkMetric name provider
    if name ∈ metricMap.map Prod.fst then
      .error (.valueError s!"metric '{name}' is defined more than once")
    else addMetrics (metricMap ++ [(name, provider)]) specs

/-- The check of a reference of a metric. -/
def checkReference (available : List String) (name ref : String) : Except Raised Unit :=
  if ref ∈ available then .ok ()
  else match unavailable ref with
    | some reason =>
      .error (.valueError s!"metric '{name}' cannot be evaluated because {reason}")
    | none => .error (.valueError s!"metric '{name}' references undefined metric '{ref}'")

/-- The objective and its direction. -/
def resolveObjective (maximize minimize : Option String) : Except Raised (String × Bool) :=
  match maximize, minimize with
  | some _, some _ =>
    .error (.valueError "--maximize and --minimize NAME are mutually exclusive")
  | some name, none => .ok (name, false)
  | none, some name => .ok (name, true)
  | none, none => .ok ("time", true)

/-- The check of a name that the objective or a constraint is about. -/
def checkName (available : List String) (role undefined name : String) : Except Raised Unit :=
  if name ∈ available then .ok ()
  else match unavailable name with
    | some reason => .error (.valueError s!"{role} {reason}")
    | none => .error (.valueError undefined)

/-- The expression of the objective: that of a derived metric, or the name of another one. -/
def objectiveExpression (metricMap : MetricMap) (name : String) : Expression :=
  match metricMap.provider name with
  | some (.expr expression) => expression
  | _ => nameExpression name

/-- Whether a metric named `fom` is scraped. -/
def requiresFom (metricMap : MetricMap) : Bool :=
  match metricMap.provider "fom" with
  | some (.regex _) => true
  | _ => false

/-- `build_objective`, for definitions and constraints that are split into their parts. -/
def buildObjective (metricSpecs : MetricMap) (maximize minimize : Option String)
    (constraints : List String) (energyDomain : Option String) : Except Raised Objective := do
  let metricMap ← addMetrics [] metricSpecs
  let available := availableNames metricMap energyDomain
  metricMap.forM fun metric => metric.2.references.forM (checkReference available metric.1)
  let (name, minimizeFlag) ← resolveObjective maximize minimize
  checkName available "objective" s!"objective metric '{name}' is not defined" name
  constraints.forM fun constraint =>
    checkName available "constraint" s!"constraint references undefined metric '{constraint}'"
      constraint
  .ok {
    objectiveExpr := objectiveExpression metricMap name
    minimize := minimizeFlag
    label := name
    needsSession := metricMap.any (·.2.needsSession) || energyDomain.isSome
    requiresFom := requiresFom metricMap
    efficiencyDomain := energyDomain
    metricMap }

/-! ### The metrics of a trial -/

section Trial

variable {V W : Type} (a : Arithmetic V W) (m : Measured V)

/-- A `MetricEvaluationError` becomes a `RecoverableEvaluationError`. -/
def recovered {α : Type} : Except Raised α → Except Raised α
  | .error (.metricEvaluation what) => .error (.recoverable what)
  | result => result

/-- `unmet`: a reference to a metric that has no value. -/
def isUnmet (metricMap : MetricMap) (values : String → Option V) (metric : Provider) : Bool :=
  metric.references.any fun r => decide (r ∈ metricMap.map Prod.fst) && (values r).isNone

/-- What a pass comes to: the values, the metrics that are still pending, and `made_progress`. -/
structure PassResult (V : Type) where
  values : String → Option V
  pending : MetricMap
  madeProgress : Bool

/-- A pass over the pending metrics. -/
def pass (metricMap : MetricMap) :
    MetricMap → (String → Option V) → Except Raised (PassResult V)
  | [], values => .ok ⟨values, [], false⟩
  | (name, metric) :: pending, values =>
    if isUnmet metricMap values metric then do
      let r ← pass metricMap pending values
      .ok { r with pending := (name, metric) :: r.pending }
    else do
      let v ← recovered (metric.evaluate a m values)
      let r ← pass metricMap pending (Function.update values name (some v))
      .ok { r with madeProgress := true }

/-- The passes, as long as metrics are pending and progress is made. -/
def passes (metricMap : MetricMap) :
    ℕ → MetricMap → (String → Option V) → Except Raised (MetricMap × (String → Option V))
  | 0, pending, values => .ok (pending, values)
  | n + 1, pending, values =>
    if pending.isEmpty then .ok (pending, values)
    else do
      let r ← pass a m metricMap pending values
      if r.madeProgress then passes metricMap n r.pending r.values
      else .ok (r.pending, r.values)

/-- The metrics that are still pending are evaluated as they come. -/
def evaluatePending : MetricMap → (String → Option V) → Except Raised (String → Option V)
  | [], values => .ok values
  | (name, metric) :: pending, values => do
    let v ← recovered (metric.evaluate a m values)
    evaluatePending pending (Function.update values name (some v))

/-- The value of a name in the result. -/
def valueOf (values : String → Option V) (name : String) : Except Raised (String × V) :=
  match values name with
  | some v => .ok (name, v)
  | none => .error (.other name)

/-- `_evaluate_metric_map`; each pass with progress leaves fewer metrics pending. -/
def evaluateMetricMap (metricMap : MetricMap) (baseValues : String → Option V) :
    Except Raised (List (String × V)) := do
  if metricMap.isEmpty then .ok []
  else
    let (pending, values) ← passes a m metricMap metricMap.length metricMap baseValues
    let values ← evaluatePending a m pending values
    metricMap.mapM fun metric => valueOf values metric.1

/-- The figure of merit that a trial measures. -/
def measureFom (metricMap : MetricMap) : Except Raised (Option V) :=
  match metricMap.provider "fom" with
  | some (.regex pattern) => (m.extractMetric pattern).map some
  | _ => .ok none

/-- The reserved values of a trial. -/
def baseValues (energyDomain : Option String) (fom : Option V) : String → Option V
  | "fom" => fom
  | "power" => if energyDomain.isSome then some m.power else none
  | "energy" => if energyDomain.isSome then some m.energy else none
  | "time" => some m.time
  | _ => none

/-- `_trial_values`: the metrics come before the reserved values. -/
def trialValues (baseValues : String → Option V) (metricValues : List (String × V))
    (name : String) : Option V :=
  (metricValues.lookup name).or (baseValues name)

end Trial

end Geopm.Metrics
