import Geopm.Opt.MetricOrder

/-!
# Metrics as terms

In the arithmetic of terms, a value tells how it was computed.  There, an order of the definitions
in which a metric is evaluated before a sampled quantity that it refers to, and that the user defines
too, gives it the reserved value.

* `Term`, `symbolic`, `symbolicTrial` : terms as numbers, and a trial that measures them;
* `pass_sorted`, `exists_late` : one pass evaluates definitions that are sorted, also when a name with
  a reserved value comes last;
* `meaningful_iff` : definitions that are accepted keep what they promise exactly when they are
  acyclic, refer to no shadowed sampled quantity, and the objective can be named.
-/

namespace Geopm.Metrics

open List

/-! ### Terms -/

/-- A number, by how it was computed. -/
inductive Term where
  | scraped (pattern : String)
  | sampled (name domain : String) (aggregation : Option String)
  | reserved (name : String)
  | literal (text : String)
  | binary (op : BinaryOp) (left right : Term)
  | unary (op : UnaryOp) (operand : Term)
deriving DecidableEq

/-- The arithmetic of terms. -/
def symbolic : Arithmetic Term Term where
  number text := .ok (.literal text)
  ofFloat := id
  binary op x y := .ok (.binary op x y)
  unary := .unary
  toFloat := .ok
  toFloat_ofFloat _ := rfl

/-- A trial whose output has a match for every pattern. -/
def symbolicTrial : Measured Term where
  stdout := "output"
  search pattern _ := some (some pattern)
  float text := some (.scraped text)
  signal name domain aggregation := .ok (.sampled name domain aggregation)
  energy := .reserved "energy"
  power := .reserved "power"
  time := .reserved "time"

section Evaluate

variable {values values' : String → Option Term} {p : Provider} {t : Term}

theorem Expr.exists_evaluate (e : Expr) (h : ∀ r ∈ e.names, (values r).isSome) :
    ∃ t, e.evaluate symbolic values = .ok t := by
  induction e with
  | constant literal => exact ⟨_, rfl⟩
  | name id =>
    obtain ⟨v, hv⟩ := Option.isSome_iff_exists.mp (h id (mem_singleton_self id))
    exact ⟨v, by rw [evaluate, hv]; rfl⟩
  | binOp op left right ihl ihr =>
    obtain ⟨x, hx⟩ := ihl fun r hr => h r (mem_append_left _ hr)
    obtain ⟨y, hy⟩ := ihr fun r hr => h r (mem_append_right _ hr)
    exact ⟨.binary op x y, by rw [evaluate, hx, hy]; rfl⟩
  | unaryOp op operand ih =>
    obtain ⟨x, hx⟩ := ih h
    exact ⟨.unary op x, by rw [evaluate, hx]; rfl⟩

/-- A term tells the values of the names. -/
theorem Expr.evaluate_inj {e : Expr} (h : e.evaluate symbolic values = .ok t)
    (h' : e.evaluate symbolic values' = .ok t) : ∀ r ∈ e.names, values r = values' r := by
  induction e generalizing t with
  | constant literal => simp [names]
  | name id =>
    rw [evaluate] at h h'
    intro r hr
    obtain rfl := mem_singleton.mp hr
    cases hv : values r with
    | none => simp [hv] at h
    | some v =>
      cases hv' : values' r with
      | none => simp [hv'] at h'
      | some v' =>
        rw [hv] at h
        rw [hv'] at h'
        exact congrArg some (Except.ok.inj (h.trans h'.symm))
  | binOp op left right ihl ihr =>
    rw [evaluate] at h h'
    obtain ⟨x, hx, h⟩ := Except.exists_of_bind_eq_ok h
    obtain ⟨y, hy, h⟩ := Except.exists_of_bind_eq_ok h
    obtain ⟨x', hx', h'⟩ := Except.exists_of_bind_eq_ok h'
    obtain ⟨y', hy', h'⟩ := Except.exists_of_bind_eq_ok h'
    obtain ⟨-, rfl, rfl⟩ := Term.binary.inj (Except.ok.inj (h.trans h'.symm))
    intro r hr
    rcases mem_append.mp hr with hr | hr
    · exact ihl hx hx' r hr
    · exact ihr hy hy' r hr
  | unaryOp op operand ih =>
    rw [evaluate] at h h'
    obtain ⟨x, hx, rfl⟩ := Except.exists_of_map_eq_ok h
    obtain ⟨x', hx', heq⟩ := Except.exists_of_map_eq_ok h'
    obtain ⟨-, rfl⟩ := Term.unary.inj heq
    exact ih hx hx'

theorem safeEval_symbolic {expression : Expression} :
    safeEval symbolic values expression = .ok t ↔
      ∃ tree, expression.tree = some tree ∧ tree.evaluate symbolic values = .ok t := by
  obtain ⟨text, tree⟩ := expression
  cases tree with
  | none => simp [safeEval]
  | some tree =>
    have hbind : tree.evaluate symbolic values >>= symbolic.toFloat =
        tree.evaluate symbolic values := by
      cases tree.evaluate symbolic values <;> rfl
    simp only [safeEval, hbind, Option.some.injEq, exists_eq_left']
    split
    · simp [*]
    · rfl

theorem Provider.exists_evaluate
    (htree : ∀ expression, p = .expr expression → expression.tree.isSome)
    (h : ∀ r ∈ p.references, (values r).isSome) :
    ∃ t, p.evaluate symbolic symbolicTrial values = .ok t := by
  cases p with
  | regex pattern => exact ⟨_, rfl⟩
  | signal name domain aggregation => exact ⟨_, rfl⟩
  | expr expression =>
    obtain ⟨tree, hexpr⟩ := Option.isSome_iff_exists.mp (htree expression rfl)
    rw [references, hexpr] at h
    obtain ⟨t, ht⟩ := tree.exists_evaluate h
    exact ⟨t, safeEval_symbolic.mpr ⟨tree, hexpr, ht⟩⟩

theorem Provider.evaluate_inj (h : p.evaluate symbolic symbolicTrial values = .ok t)
    (h' : p.evaluate symbolic symbolicTrial values' = .ok t) :
    ∀ r ∈ p.references, values r = values' r := by
  cases p with
  | regex pattern => simp [references]
  | signal name domain aggregation => simp [references]
  | expr expression =>
    obtain ⟨tree, hexpr, ht⟩ := safeEval_symbolic.mp h
    obtain ⟨tree', hexpr', ht'⟩ := safeEval_symbolic.mp h'
    obtain rfl := Option.some.inj (hexpr.symm.trans hexpr')
    rw [references, hexpr]
    exact Expr.evaluate_inj ht ht'

theorem Provider.evaluate_reserved {name : String}
    (h : p.evaluate symbolic symbolicTrial values = .ok (.reserved name)) :
    ∃ r ∈ p.references, values r = some (.reserved name) := by
  cases p with
  | regex pattern => cases h
  | signal => cases h
  | expr expression =>
    obtain ⟨tree, hexpr, ht⟩ := safeEval_symbolic.mp h
    rw [references, hexpr]
    cases tree with
    | constant literal => cases ht
    | name id =>
      refine ⟨id, mem_singleton_self id, ?_⟩
      rw [Expr.evaluate] at ht
      cases hv : values id with
      | none => simp [hv] at ht
      | some v =>
        rw [hv] at ht
        exact congrArg some (Except.ok.inj ht)
    | binOp op left right =>
      obtain ⟨x, -, ht⟩ := Except.exists_of_bind_eq_ok ht
      obtain ⟨y, -, ht⟩ := Except.exists_of_bind_eq_ok ht
      cases ht
    | unaryOp op operand =>
      obtain ⟨x, -, ht⟩ := Except.exists_of_map_eq_ok ht
      cases ht

end Evaluate

/-! ### Definitions in a sorted order -/

section Sorted

variable {metricMap : MetricMap} {values base : String → Option Term}
variable {ρ : Type} [LinearOrder ρ] {rank : String → ρ}

/-- One pass evaluates definitions that are sorted, each with the values that the names of a greater
rank had before. -/
theorem pass_sorted {metrics : MetricMap} (hsorted : metrics.Pairwise fun x y => rank x.1 ≤ rank y.1)
    (hnodup : (metrics.map Prod.fst).Nodup)
    (htree : ∀ x ∈ metrics, ∀ expression, x.2 = .expr expression → expression.tree.isSome)
    (hrefs : ∀ x ∈ metrics, ∀ r ∈ x.2.references,
      (values r).isSome ∨ ∃ y ∈ metrics, y.1 = r ∧ rank y.1 < rank x.1) :
    ∃ r, pass symbolic symbolicTrial metricMap metrics values = .ok r ∧ r.pending = [] ∧
      (∀ n ∉ metrics.map Prod.fst, r.values n = values n) ∧
      ∀ x ∈ metrics, ∃ env t, x.2.evaluate symbolic symbolicTrial env = .ok t ∧
        r.values x.1 = some t ∧ ∀ n, rank x.1 < rank n → env n = values n := by
  induction metrics generalizing values with
  | nil => exact ⟨_, rfl, rfl, fun _ _ => rfl, by simp⟩
  | cons x metrics ih =>
    obtain ⟨hle, hsorted⟩ := pairwise_cons.mp hsorted
    obtain ⟨hnotmem, hnodup⟩ := nodup_cons.mp hnodup
    obtain ⟨htreex, htree⟩ := forall_mem_cons.mp htree
    obtain ⟨hrefsx, hrefs⟩ := forall_mem_cons.mp hrefs
    have hsome : ∀ r ∈ x.2.references, (values r).isSome := by
      intro r hr
      refine (hrefsx r hr).resolve_right ?_
      rintro ⟨y, hy, -, hlt⟩
      rcases mem_cons.mp hy with rfl | hy
      · exact hlt.false
      · exact (hle y hy).not_gt hlt
    obtain ⟨t, ht⟩ := x.2.exists_evaluate htreex hsome
    have hmet : ¬ isUnmet metricMap values x.2 := by
      rw [isUnmet_iff]
      rintro ⟨r, hr, -, hnone⟩
      simpa [hnone] using hsome r hr
    have hrefs' : ∀ y ∈ metrics, ∀ r ∈ y.2.references,
        (Function.update values x.1 (some t) r).isSome ∨
          ∃ z ∈ metrics, z.1 = r ∧ rank z.1 < rank y.1 := by
      intro y hy r hr
      by_cases hrx : r = x.1
      · exact .inl (by rw [hrx, Function.update_self, Option.isSome_some])
      · rw [Function.update_of_ne hrx]
        refine (hrefs y hy r hr).imp_right ?_
        rintro ⟨z, hz, rfl, hlt⟩
        exact ⟨z, (mem_cons.mp hz).resolve_left fun heq => hrx (by rw [heq]), rfl, hlt⟩
    obtain ⟨r, hr, hpending, hframe, hall⟩ := ih hsorted hnodup htree hrefs'
    refine ⟨{ r with madeProgress := true }, ?_, hpending, fun n hn => ?_,
      forall_mem_cons.mpr ⟨⟨values, t, ht, ?_, fun _ _ => rfl⟩, fun y hy => ?_⟩⟩
    · rw [pass, if_neg hmet, ht]
      change (pass _ _ _ metrics _ >>= _) = _
      rw [hr]
      rfl
    · rw [map_cons, mem_cons, not_or] at hn
      exact (hframe n hn.2).trans (Function.update_of_ne hn.1 _ _)
    · exact (hframe x.1 hnotmem).trans (Function.update_self _ _ _)
    · obtain ⟨env, u, hu, hvalue, henv⟩ := hall y hy
      refine ⟨env, u, hu, hvalue, fun n hn => (henv n hn).trans (Function.update_of_ne ?_ _ _)⟩
      rintro rfl
      exact (hle y hy).not_gt hn

theorem passes_of_pass {r : PassResult Term} {pending : MetricMap} (hne : pending ≠ [])
    (h : pass symbolic symbolicTrial metricMap pending values = .ok r) (hpending : r.pending = []) :
    passes symbolic symbolicTrial metricMap pending.length pending values = .ok ([], r.values) := by
  obtain ⟨n, hn⟩ := Nat.exists_eq_succ_of_ne_zero (mt length_eq_zero_iff.mp hne)
  rw [hn, passes, if_neg (mt List.isEmpty_iff.mp hne), h]
  change (if r.madeProgress then _ else _) = _
  rw [hpending]
  split
  · cases n <;> rfl
  · rfl

theorem evaluateMetricMap_sorted
    (hsorted : metricMap.Pairwise fun x y => rank x.1 ≤ rank y.1)
    (hnodup : (metricMap.map Prod.fst).Nodup)
    (htree : ∀ x ∈ metricMap, ∀ expression, x.2 = .expr expression → expression.tree.isSome)
    (hrefs : ∀ x ∈ metricMap, ∀ r ∈ x.2.references,
      (base r).isSome ∨ ∃ y ∈ metricMap, y.1 = r ∧ rank y.1 < rank x.1) :
    ∃ vs, evaluateMetricMap symbolic symbolicTrial metricMap base = .ok vs ∧
      ∀ x ∈ metricMap, ∃ env t, x.2.evaluate symbolic symbolicTrial env = .ok t ∧
        (x.1, t) ∈ vs ∧ ∀ n, rank x.1 < rank n → env n = base n := by
  by_cases hne : metricMap = []
  · subst hne
    exact ⟨[], rfl, by simp⟩
  obtain ⟨r, hr, hpending, -, hall⟩ := pass_sorted hsorted hnodup htree hrefs
  obtain ⟨vs, hvs, hnames, hvalues⟩ := mapM_valueOf (P := fun n v => r.values n = some v)
    fun x hx => (hall x hx).elim fun _ ⟨t, _, ht, _⟩ => ⟨t, ht, ht⟩
  refine ⟨vs, ?_, fun x hx => ?_⟩
  · rw [evaluateMetricMap, if_neg (mt List.isEmpty_iff.mp hne), passes_of_pass hne hr hpending]
    exact hvs
  · obtain ⟨env, t, ht, hvalue, henv⟩ := hall x hx
    obtain ⟨⟨n, u⟩, hy, rfl⟩ := mem_map.mp (hnames ▸ mem_map_of_mem hx)
    have hut : u = t := Option.some.inj ((hvalues _ hy).symm.trans hvalue)
    exact ⟨env, t, ht, hut ▸ hy, henv⟩

end Sorted

/-! ### What the conditions are needed for -/

section Needed

variable {o : Objective} {fom : Option Term}

theorem exists_measureFom (metricMap : MetricMap) :
    ∃ fom, measureFom symbolicTrial metricMap = .ok fom ∧ ∀ name, fom ≠ some (.reserved name) := by
  rw [measureFom]
  split
  · exact ⟨some (.scraped _), rfl, by simp⟩
  · exact ⟨none, rfl, by simp⟩

theorem not_means_reserved (hfom : ∀ name, fom ≠ some (.reserved name)) {specs : MetricMap}
    {energyDomain : Option String} {name p : String} {v : Term}
    (h : Means symbolic symbolicTrial specs (baseValues symbolicTrial energyDomain fom) name v)
    (hv : v = .reserved p) : specs.lookup p = none := by
  induction h with
  | own hnone hbase =>
    subst hv
    rcases baseValues_eq_some.mp hbase with ⟨-, heq⟩ | ⟨-, ⟨rfl, heq⟩ | ⟨rfl, heq⟩⟩ | ⟨rfl, heq⟩
    · exact absurd heq (hfom p)
    all_goals
      obtain rfl := Term.reserved.inj heq
      exact Option.map_eq_none_iff.mp hnone
  | defined env hd _ _ heval ih =>
    subst hv
    obtain ⟨provider, -, rfl⟩ := Option.map_eq_some_iff.mp hd
    obtain ⟨r, hr, henv⟩ := provider.evaluate_reserved heval
    exact ih r _ hr henv rfl

/-- Definitions can be in an order in which a name with a reserved value is evaluated last. -/
theorem Accepted.exists_late (h : Accepted o) (hacyclic : Acyclic (Refers o.metricMap)) {p : String}
    (hp : (baseValues symbolicTrial o.efficiencyDomain fom p).isSome) :
    ∃ metricMap : MetricMap, metricMap.Perm o.metricMap ∧
      ∃ vs, evaluateMetricMap symbolic symbolicTrial metricMap
          (baseValues symbolicTrial o.efficiencyDomain fom) = .ok vs ∧
        ∀ x ∈ o.metricMap, x.1 ≠ p →
          ∃ env t, x.2.evaluate symbolic symbolicTrial env = .ok t ∧ (x.1, t) ∈ vs ∧
            env p = baseValues symbolicTrial o.efficiencyDomain fom p := by
  obtain ⟨rank, hrank⟩ := hacyclic.exists_rank (s := o.metricMap.map Prod.fst)
    fun _ _ ⟨_, _, _, hmem⟩ => hmem
  -- the rank in which the name comes last
  let late : String → WithTop ℕ := fun n => if n = p then ⊤ else rank n
  have hlate {n : String} (hn : n ≠ p) : late n = rank n := if_neg hn
  have htop : late p = ⊤ := if_pos rfl
  let metricMap := o.metricMap.insertionSort fun x y => late x.1 ≤ late y.1
  have hperm : metricMap.Perm o.metricMap := perm_insertionSort _ _
  have : Std.Total fun x y : String × Provider => late x.1 ≤ late y.1 := ⟨fun _ _ => le_total _ _⟩
  have : IsTrans (String × Provider) fun x y => late x.1 ≤ late y.1 := ⟨fun _ _ _ => le_trans⟩
  have hsorted : metricMap.Pairwise fun x y => late x.1 ≤ late y.1 := pairwise_insertionSort _ _
  have hrefs : ∀ x ∈ metricMap, ∀ r ∈ x.2.references,
      (baseValues symbolicTrial o.efficiencyDomain fom r).isSome ∨
        ∃ y ∈ metricMap, y.1 = r ∧ late y.1 < late x.1 := by
    intro x hx r hr
    have hmem := hperm.mem_iff.mp hx
    by_cases hrp : r = p
    · exact .inl (hrp ▸ hp)
    refine (mem_or_isSome_of_available (h.refs x hmem r hr)).symm.imp_right fun huser => ?_
    obtain ⟨y, hy, rfl⟩ := mem_map.mp huser
    have hlt := hrank x.1 y.1 ⟨x.2, (lookup_eq_some_iff_mem h.nodup).mpr hmem, hr, huser⟩
    refine ⟨y, hperm.mem_iff.mpr hy, rfl, ?_⟩
    rw [hlate hrp]
    by_cases hxp : x.1 = p
    · rw [hxp, htop]
      exact WithTop.coe_lt_top _
    · rw [hlate hxp]
      exact WithTop.coe_lt_coe.mpr hlt
  obtain ⟨vs, hvs, hall⟩ := evaluateMetricMap_sorted hsorted
    ((hperm.map Prod.fst).nodup_iff.mpr h.nodup) (fun x hx => h.tree x (hperm.mem_iff.mp hx)) hrefs
  refine ⟨metricMap, hperm, vs, hvs, fun x hx hxp => ?_⟩
  obtain ⟨env, t, ht, hmem, henv⟩ := hall x (hperm.mem_iff.mpr hx)
  refine ⟨env, t, ht, hmem, henv p ?_⟩
  rw [hlate hxp, htop]
  exact WithTop.coe_lt_top _

theorem Accepted.unshadowed (h : Accepted o) (hmeaningful : Meaningful o) : Unshadowed o := by
  intro hdomain x hx p hp hsampled huser
  obtain ⟨hacyclic, hright⟩ := hmeaningful
  obtain ⟨fom, hfom, hscraped⟩ := exists_measureFom o.metricMap
  have hbase : baseValues symbolicTrial o.efficiencyDomain fom p = some (.reserved p) :=
    baseValues_eq_some.mpr (.inr (.inl ⟨hdomain, (mem_pair.mp hsampled).imp
      (fun hp => ⟨hp, hp ▸ rfl⟩) fun hp => ⟨hp, hp ▸ rfl⟩⟩))
  have hlookup := (lookup_eq_some_iff_mem h.nodup).mpr hx
  have hxp : x.1 ≠ p := by
    rintro rfl
    exact hacyclic x.1 (.single ⟨x.2, hlookup, hp, huser⟩)
  obtain ⟨metricMap, hperm, vs, hvs, hlate⟩ := h.exists_late hacyclic (Option.isSome_of_mem hbase)
  obtain ⟨env, t, ht, hmem, henv⟩ := hlate x hx hxp
  -- the metric got the reserved value, and means another one
  have hmeans := ((hright metricMap hperm Term Term symbolic symbolicTrial fom
    ((measureFom_of_perm h hperm).trans hfom)).1.2 vs hvs).2 _ hmem
  cases hmeans with
  | own hnone => rw [hlookup] at hnone; cases hnone
  | defined env' hd _ hdenotes heval =>
    rw [hlookup, Option.map_some, Option.some.injEq] at hd
    subst hd
    have hreserved : env' p = some (.reserved p) :=
      (Provider.evaluate_inj heval ht p hp).trans (henv.trans hbase)
    have hnone := not_means_reserved hscraped (hdenotes p _ hp hreserved) rfl
    obtain ⟨y, hy, rfl⟩ := mem_map.mp huser
    rw [(lookup_eq_some_iff_mem h.nodup).mpr hy] at hnone
    cases hnone

theorem Accepted.speakable (h : Accepted o) (hmeaningful : Meaningful o) : Speakable o := by
  obtain ⟨hacyclic, hright⟩ := hmeaningful
  obtain ⟨fom, hfom, -⟩ := exists_measureFom o.metricMap
  by_contra hnot
  obtain ⟨hderived, hkeyword⟩ := not_or.mp hnot
  have htime : (baseValues symbolicTrial o.efficiencyDomain fom "time").isSome := rfl
  obtain ⟨metricMap, hperm, vs, hvs, -⟩ := h.exists_late hacyclic htime
  obtain ⟨v, -, hv⟩ := (hright metricMap hperm Term Term symbolic symbolicTrial fom
    ((measureFom_of_perm h hperm).trans hfom)).2.2 vs hvs
  rw [objectiveExpression_of_not_expr (by rwa [lookup_eq_of_perm hperm h.nodup]), nameExpression,
    if_pos (not_not.mp hkeyword)] at hv
  cases hv

end Needed

/-- Definitions that are accepted keep what they promise exactly when they are acyclic, refer to no
shadowed sampled quantity, and the objective can be named. -/
theorem meaningful_iff {metricSpecs : MetricMap} {maximize minimize : Option String}
    {constraints : List String} {energyDomain : Option String} {o : Objective}
    (h : buildObjective metricSpecs maximize minimize constraints energyDomain = .ok o) :
    Meaningful o ↔ Acyclic (Refers o.metricMap) ∧ Unshadowed o ∧ Speakable o := by
  have haccepted := (buildObjective_accepted h).1
  constructor
  · intro hmeaningful
    exact ⟨hmeaningful.1, haccepted.unshadowed hmeaningful, haccepted.speakable hmeaningful⟩
  · rintro ⟨hacyclic, hunshadowed, hspeakable⟩
    exact haccepted.meaningful hacyclic hunshadowed hspeakable

/-- A scraped figure of merit, and a metric that is derived from it. -/
def derived : MetricMap :=
  [("cost", .expr ⟨"2 / fom", some (.binOp .div (.constant "2") (.name "fom"))⟩),
    ("fom", .regex "FOM: (.*)")]

theorem refers_derived {name ref : String} (h : Refers derived name ref) :
    name = "cost" ∧ ref = "fom" := by
  obtain ⟨p, hp, href, -⟩ := h
  obtain ⟨l₁, l₂, heq, -⟩ := lookup_eq_some_iff.mp hp
  have hmem : (name, p) ∈ derived := by rw [heq]; simp
  simp only [derived, mem_cons, Prod.mk.injEq, not_mem_nil, or_false] at hmem
  rcases hmem with ⟨rfl, rfl⟩ | ⟨rfl, rfl⟩
  · exact ⟨rfl, mem_singleton.mp href⟩
  · cases href

theorem meaningful_derived :
    ∃ o, buildObjective derived none (some "cost") [] (some "board") = .ok o ∧ Meaningful o := by
  refine ⟨_, rfl, (@meaningful_iff derived none (some "cost") [] (some "board") _ rfl).mpr
    ⟨?_, ?_, .inl ⟨_, rfl⟩⟩⟩
  · intro name h
    obtain ⟨ref, hhead, -⟩ := Relation.TransGen.head'_iff.mp h
    obtain ⟨ref', -, htail⟩ := Relation.TransGen.tail'_iff.mp h
    have hname := (refers_derived hhead).1.symm.trans (refers_derived htail).2
    exact absurd hname (by decide)
  · have hnames : ∀ r ∈ ["power", "energy"], r ∉ derived.map Prod.fst := by decide
    exact fun _ x hx r hr hsampled => hnames r hsampled

/-- A metric that refers to the sampled power, which the user defines too. -/
def shadowed : MetricMap :=
  [("x", .expr ⟨"power * 2", some (.binOp .mult (.name "power") (.constant "2"))⟩),
    ("power", .signal "CPU_POWER" "board" (some "mean"))]

/-- Two metrics that refer to each other. -/
def cyclic : MetricMap :=
  [("a", .expr ⟨"b", some (.name "b")⟩), ("b", .expr ⟨"a", some (.name "a")⟩)]

/-- The value of a shadowed quantity depends on the order, and cycles are accepted. -/
theorem not_meaningful :
    (∃ o, buildObjective shadowed none (some "x") [] (some "board") = .ok o ∧ ¬ Meaningful o) ∧
      ∃ o, buildObjective cyclic none (some "a") [] none = .ok o ∧ ¬ Meaningful o := by
  refine ⟨⟨_, rfl, fun h => ?_⟩, _, rfl, fun h => ?_⟩
  · have hsame := (h.2 shadowed.reverse shadowed.reverse_perm Term Term symbolic symbolicTrial none
      rfl).2.1 _ _ rfl rfl "x"
    revert hsame
    decide
  · have hab : Refers cyclic "a" "b" := ⟨_, rfl, by decide, by decide⟩
    have hba : Refers cyclic "b" "a" := ⟨_, rfl, by decide, by decide⟩
    exact h.1 "a" (.tail (.single hab) hba)

end Geopm.Metrics
