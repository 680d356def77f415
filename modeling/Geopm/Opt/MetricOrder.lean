import Geopm.Lib.Acyclic
import Geopm.Lib.SortedMap
import Geopm.Opt.Metrics

/-!
# The order of the metrics

The loop of `_evaluate_metric_map` evaluates a metric when its references have values, and reserved
values are there from the start, also under the names that the user defines.

* `Means` : the value of a name by substitution of the definitions of the user;
* `MapRight`, `SameResult`, `ObjectiveRight`, `Meaningful` : what the definitions promise;
* `Unshadowed`, `Speakable` : conditions on them; `Accepted` : what `buildObjective` checks;
* `Inv`, `pass_spec`, `passes_spec` : the invariant of the loop, for a pass and for all of them;
* `evaluateMetricMap_right` : the loop gives every metric the value that it means;
* `Accepted.meaningful` : under the conditions, the definitions keep what they promise.
-/

namespace Geopm.Metrics

open Relation
open List
open Option

/-! ### What the definitions promise -/

variable {V W : Type}

section Promise

variable (a : Arithmetic V W) (m : Measured V)

/-- A name refers to a metric of the user. -/
def Refers (metricMap : MetricMap) (name ref : String) : Prop :=
  ∃ provider, metricMap.lookup name = some provider ∧ ref ∈ provider.references ∧
    ref ∈ metricMap.map Prod.fst

theorem Expr.evaluate_congr {values values' : String → Option V} (e : Expr)
    (h : ∀ r ∈ e.names, values r = values' r) : e.evaluate a values = e.evaluate a values' := by
  induction e with
  | constant literal => rfl
  | name id => simp only [evaluate, h id (mem_singleton_self id)]
  | binOp op left right ihl ihr =>
    rw [evaluate, evaluate, ihl fun r hr => h r (mem_append_left _ hr),
      ihr fun r hr => h r (mem_append_right _ hr)]
  | unaryOp op operand ih => rw [evaluate, evaluate, ih h]

theorem Provider.evaluate_congr {values values' : String → Option V} (p : Provider)
    (h : ∀ r ∈ p.references, values r = values' r) :
    p.evaluate a m values = p.evaluate a m values' := by
  cases p with
  | regex pattern => rfl
  | signal name domain aggregation => rfl
  | expr expression =>
    obtain ⟨text, tree⟩ := expression
    cases tree with
    | none => rfl
    | some tree => simp only [evaluate, safeEval, tree.evaluate_congr a h]

/-- A provider as a definition. -/
def Provider.definition (p : Provider) : Definition String V Raised where
  refs := p.references
  eval values := p.evaluate a m values
  congr _ _ := p.evaluate_congr a m

/-- The value of a name by substitution: a reserved value is only that of a name that the user does
not define. -/
def Means (metricMap : MetricMap) (base : String → Option V) : String → V → Prop :=
  Denotes (fun name => (metricMap.lookup name).map (Provider.definition a m)) base

/-- Every metric has the value that it means, and the evaluation fails only when one has none. -/
def MapRight (specs metricMap : MetricMap) (base : String → Option V) : Prop :=
  ((∃ vs, evaluateMetricMap a m metricMap base = .ok vs) ↔
    ∀ name ∈ specs.map Prod.fst, ∃ v, Means a m specs base name v) ∧
  ∀ vs, evaluateMetricMap a m metricMap base = .ok vs →
    vs.map Prod.fst = metricMap.map Prod.fst ∧ ∀ x ∈ vs, Means a m specs base x.1 x.2

/-- Two orders of the definitions give the same values. -/
def SameResult (specs metricMap : MetricMap) (base : String → Option V) : Prop :=
  ∀ vs vs', evaluateMetricMap a m specs base = .ok vs →
    evaluateMetricMap a m metricMap base = .ok vs' → ∀ name, vs.lookup name = vs'.lookup name

/-- The objective is evaluated to the trial's value of the objective metric. -/
def ObjectiveRight (metricMap : MetricMap) (label : String) (base : String → Option V) : Prop :=
  ∀ vs, evaluateMetricMap a m metricMap base = .ok vs →
    ∃ v, trialValues base vs label = some v ∧
      safeEval a (trialValues base vs) (objectiveExpression metricMap label) = .ok v

end Promise

/-- Cycles are rejected, and in every arithmetic the metrics of every trial have the values that
they mean, in any order of the definitions, and so has the objective. -/
def Meaningful (o : Objective) : Prop :=
  Acyclic (Refers o.metricMap) ∧
  ∀ metricMap : MetricMap, metricMap.Perm o.metricMap →
    ∀ (V W : Type) (a : Arithmetic V W) (m : Measured V) (fom : Option V),
      measureFom m metricMap = .ok fom →
      MapRight a m o.metricMap metricMap (baseValues m o.efficiencyDomain fom) ∧
        SameResult a m o.metricMap metricMap (baseValues m o.efficiencyDomain fom) ∧
        ObjectiveRight a m metricMap o.label (baseValues m o.efficiencyDomain fom)

/-- No expression refers to a sampled quantity that the user defines too. -/
def Unshadowed (o : Objective) : Prop :=
  o.efficiencyDomain.isSome → ∀ x ∈ o.metricMap, ∀ r ∈ x.2.references,
    r ∈ ["power", "energy"] → r ∉ o.metricMap.map Prod.fst

/-- The objective is derived, or its name is no keyword. -/
def Speakable (o : Objective) : Prop :=
  (∃ expression, o.metricMap.lookup o.label = some (.expr expression)) ∨ o.label ∉ keywords

/-! ### What is checked -/

/-- What `buildObjective` checks of the definitions. -/
structure Accepted (o : Objective) : Prop where
  nodup : (o.metricMap.map Prod.fst).Nodup
  mutable : "time" ∉ o.metricMap.map Prod.fst
  tree : ∀ x ∈ o.metricMap, ∀ expression, x.2 = .expr expression → expression.tree.isSome
  refs : ∀ x ∈ o.metricMap, ∀ r ∈ x.2.references,
    r ∈ availableNames o.metricMap o.efficiencyDomain
  label : o.label ∈ availableNames o.metricMap o.efficiencyDomain
  objectiveExpr : o.objectiveExpr = objectiveExpression o.metricMap o.label

theorem checkMetric_eq_ok {name : String} {provider : Provider}
    (h : checkMetric name provider = .ok ()) :
    name ≠ "time" ∧ ∀ expression, provider = .expr expression → expression.tree.isSome := by
  by_cases hname : name ∈ immutableMetrics
  · simp [checkMetric, hname] at h
  refine ⟨fun heq => hname (by simp [heq, immutableMetrics]), ?_⟩
  rintro expression rfl
  by_contra htree
  simp [checkMetric, hname, htree] at h

theorem addMetrics_eq_ok {metricMap specs metricMap' : MetricMap}
    (h : addMetrics metricMap specs = .ok metricMap') :
    metricMap' = metricMap ++ specs ∧
      ((metricMap.map Prod.fst).Nodup → (metricMap'.map Prod.fst).Nodup) ∧
      ∀ x ∈ specs, checkMetric x.1 x.2 = .ok () := by
  induction specs generalizing metricMap with
  | nil =>
    cases h
    exact ⟨(append_nil _).symm, id, by simp⟩
  | cons spec specs ih =>
    obtain ⟨name, provider⟩ := spec
    obtain ⟨⟨⟩, hcheck, h⟩ := Except.exists_of_bind_eq_ok h
    by_cases hname : name ∈ metricMap.map Prod.fst
    · rw [if_pos hname] at h
      cases h
    rw [if_neg hname] at h
    obtain ⟨rfl, hnodup, hspecs⟩ := ih h
    refine ⟨by simp, fun hmap => hnodup ?_, ?_⟩
    · rw [map_append]
      refine nodup_append.mpr ⟨hmap, nodup_singleton name, fun other hother same hsame => ?_⟩
      obtain rfl := mem_singleton.mp hsame
      exact ne_of_mem_of_not_mem hother hname
    · exact forall_mem_cons.mpr ⟨hcheck, hspecs⟩

/-- Checks that all pass. -/
theorem forM_eq_ok {α : Type} {f : α → Except Raised Unit} {xs : List α}
    (h : xs.forM f = .ok ()) : ∀ x ∈ xs, f x = .ok () := by
  induction xs with
  | nil => simp
  | cons x xs ih =>
    obtain ⟨⟨⟩, hx, h⟩ := Except.exists_of_bind_eq_ok h
    exact forall_mem_cons.mpr ⟨hx, ih h⟩

theorem buildObjective_accepted {metricSpecs : MetricMap} {maximize minimize : Option String}
    {constraints : List String} {energyDomain : Option String} {o : Objective}
    (h : buildObjective metricSpecs maximize minimize constraints energyDomain = .ok o) :
    Accepted o ∧ o.metricMap = metricSpecs := by
  obtain ⟨metricMap, hmap, h⟩ := Except.exists_of_bind_eq_ok h
  obtain ⟨⟨⟩, hrefs, h⟩ := Except.exists_of_bind_eq_ok h
  obtain ⟨⟨name, minimizeFlag⟩, hname, h⟩ := Except.exists_of_bind_eq_ok h
  obtain ⟨⟨⟩, hlabel, h⟩ := Except.exists_of_bind_eq_ok h
  obtain ⟨⟨⟩, hconstraints, h⟩ := Except.exists_of_bind_eq_ok h
  obtain rfl := Except.ok.inj h
  obtain ⟨hspecs, hnodup, hcheck⟩ := addMetrics_eq_ok hmap
  rw [nil_append] at hspecs
  subst hspecs
  refine ⟨⟨hnodup nodup_nil, ?_, ?_, ?_, ?_, rfl⟩, rfl⟩
  · intro hmem
    obtain ⟨x, hx, hname⟩ := mem_map.mp hmem
    exact (checkMetric_eq_ok (hcheck x hx)).1 hname
  · exact fun x hx => (checkMetric_eq_ok (hcheck x hx)).2
  · intro x hx r hr
    have href := forM_eq_ok (forM_eq_ok hrefs x hx) r hr
    by_contra hmem
    rw [checkReference, if_neg hmem] at href
    split at href <;> cases href
  · by_contra hmem
    rw [checkName, if_neg hmem] at hlabel
    split at hlabel <;> cases hlabel

/-! ### The loop -/

variable {metricMap : MetricMap} {name : String}

section Loop

variable {a : Arithmetic V W} {m : Measured V}

theorem lookup_eq_some_iff_mem {metricMap : MetricMap} (h : (metricMap.map Prod.fst).Nodup)
    {name : String} {p : Provider} : metricMap.lookup name = some p ↔ (name, p) ∈ metricMap := by
  induction metricMap with
  | nil => simp
  | cons x metricMap ih =>
    obtain ⟨other, q⟩ := x
    obtain ⟨hother, hmap⟩ := nodup_cons.mp h
    rw [SortedMap.lookup_cons_ite, mem_cons]
    split_ifs with heq
    · subst heq
      refine ⟨fun hq => .inl (by rw [Option.some.inj hq]), ?_⟩
      rintro (hq | hmem)
      · rw [(Prod.mk.inj hq).2]
      · exact absurd (mem_map_of_mem hmem) hother
    · rw [ih hmap]
      exact ⟨.inr, fun hq => hq.resolve_left fun hq => heq (Prod.mk.inj hq).1⟩

theorem lookup_eq_of_perm {metricMap specs : MetricMap} (hperm : metricMap.Perm specs)
    (h : (specs.map Prod.fst).Nodup) (name : String) : metricMap.lookup name = specs.lookup name := by
  have h' : (metricMap.map Prod.fst).Nodup := (hperm.map Prod.fst).nodup_iff.mpr h
  refine Option.ext fun p => ?_
  rw [lookup_eq_some_iff_mem h', lookup_eq_some_iff_mem h, hperm.mem_iff]

/-- What the loop needs of the definitions and of the reserved values. -/
structure Ready (a : Arithmetic V W) (m : Measured V) (metricMap : MetricMap)
    (base : String → Option V) : Prop where
  nodup : (metricMap.map Prod.fst).Nodup
  available : ∀ x ∈ metricMap, ∀ r ∈ x.2.references,
    r ∈ metricMap.map Prod.fst ∨ (base r).isSome
  right : ∀ x ∈ metricMap, ∀ r ∈ x.2.references, ∀ v, base r = some v → Means a m metricMap base r v

/-- The values that are there are right, and those of the names that are done are there. -/
structure Inv (a : Arithmetic V W) (m : Measured V) (metricMap : MetricMap)
    (base : String → Option V) (done : String → Prop) (values : String → Option V) : Prop where
  right : ∀ x ∈ metricMap, ∀ r ∈ x.2.references, ∀ v, values r = some v → Means a m metricMap base r v
  available : ∀ r, (base r).isSome → (values r).isSome
  done : ∀ name, done name → ∃ v, values name = some v ∧ Means a m metricMap base name v

variable {base values : String → Option V} {done : String → Prop}
variable {p : Provider}

theorem isUnmet_iff : isUnmet metricMap values p ↔
    ∃ r ∈ p.references, r ∈ metricMap.map Prod.fst ∧ values r = none := by
  simp [isUnmet]

/-- The references of a metric that is not unmet have values, and they are right. -/
theorem Inv.supplies (hready : Ready a m metricMap base) (h : Inv a m metricMap base done values)
    (hmem : (name, p) ∈ metricMap) (hmet : ¬ isUnmet metricMap values p) :
    Supplies (fun name => (metricMap.lookup name).map (Provider.definition a m)) base
      (p.definition a m) values := by
  intro r hr
  have hsome : (values r).isSome := by
    rcases hready.available _ hmem r hr with huser | hbase
    · by_contra hnone
      exact hmet (isUnmet_iff.mpr ⟨r, hr, huser, not_isSome_iff_eq_none.mp hnone⟩)
    · exact h.available r hbase
  obtain ⟨v, hv⟩ := isSome_iff_exists.mp hsome
  exact ⟨v, hv, h.right _ hmem r hr v hv⟩

theorem lookup_definition (hready : Ready a m metricMap base) (hmem : (name, p) ∈ metricMap) :
    (metricMap.lookup name).map (Provider.definition a m) = some (p.definition a m) := by
  rw [(lookup_eq_some_iff_mem hready.nodup).mpr hmem, map_some]

theorem Inv.update (h : Inv a m metricMap base done values) {v : V}
    (hv : Means a m metricMap base name v) :
    Inv a m metricMap base (fun n => done n ∨ n = name) (Function.update values name (some v)) where
  right x hx r hr w hw := by
    by_cases hrn : r = name
    · subst hrn
      rw [Function.update_self] at hw
      exact Option.some.inj hw ▸ hv
    · rw [Function.update_of_ne hrn] at hw
      exact h.right x hx r hr w hw
  available r hr := by
    by_cases hrn : r = name
    · rw [hrn, Function.update_self, isSome_some]
    · rw [Function.update_of_ne hrn]
      exact h.available r hr
  done n hn := by
    by_cases hnn : n = name
    · exact ⟨v, by rw [hnn, Function.update_self], hnn ▸ hv⟩
    · rw [Function.update_of_ne hnn]
      exact h.done n (hn.resolve_right hnn)

theorem Inv.mono {done' : String → Prop} (h : Inv a m metricMap base done values)
    (hdone : ∀ n, done' n → done n) : Inv a m metricMap base done' values :=
  { h with done := fun n hn => h.done n (hdone n hn) }

/-- Some name of the user has no value. -/
def Fails (a : Arithmetic V W) (m : Measured V) (metricMap : MetricMap)
    (base : String → Option V) : Prop :=
  ∃ name ∈ metricMap.map Prod.fst, ¬ ∃ v, Means a m metricMap base name v

/-- A metric that is not unmet is evaluated to what it means, or it means nothing. -/
theorem evaluate_spec (hready : Ready a m metricMap base) (h : Inv a m metricMap base done values)
    (hmem : (name, p) ∈ metricMap) (hmet : ¬ isUnmet metricMap values p) :
    (∃ v, recovered (p.evaluate a m values) = .ok v ∧ Means a m metricMap base name v) ∨
      (∃ e, recovered (p.evaluate a m values) = .error e) ∧ Fails a m metricMap base := by
  have hd := lookup_definition hready hmem
  have henv := h.supplies hready hmem hmet
  cases heval : p.evaluate a m values with
  | ok v => exact .inl ⟨v, rfl, denotes_of_eval hd henv heval⟩
  | error e =>
    refine .inr ⟨?_, name, mem_map_of_mem hmem, not_denotes_of_eval hd henv heval⟩
    cases e <;> exact ⟨_, rfl⟩

variable {pending : MetricMap}

/-- A pass keeps the invariant; without progress it changes nothing, and what is pending is unmet. -/
theorem pass_spec (hready : Ready a m metricMap base)
    (hpending : ∀ x ∈ pending, x ∈ metricMap) (h : Inv a m metricMap base done values) :
    (∃ r, pass a m metricMap pending values = .ok r ∧ r.pending.Sublist pending ∧
      Inv a m metricMap base
        (fun n => done n ∨ n ∈ pending.map Prod.fst ∧ n ∉ r.pending.map Prod.fst) r.values ∧
      (r.madeProgress → r.pending.length < pending.length) ∧
      (¬ r.madeProgress → r.pending = pending ∧
        ∀ x ∈ pending, isUnmet metricMap values x.2)) ∨
    (∃ e, pass a m metricMap pending values = .error e) ∧ Fails a m metricMap base := by
  induction pending generalizing values done with
  | nil =>
    refine .inl ⟨⟨values, [], false⟩, rfl, .slnil, h.mono fun n hn => ?_, by simp, by simp⟩
    exact hn.resolve_right fun hn => by simp at hn
  | cons x pending ih =>
    obtain ⟨name, p⟩ := x
    obtain ⟨hmem, hpending⟩ := forall_mem_cons.mp hpending
    rw [pass]
    by_cases hmet : isUnmet metricMap values p
    · rw [if_pos hmet]
      rcases ih hpending h with ⟨r, hr, hsub, hinv, hprogress, hstuck⟩ | ⟨⟨e, he⟩, hfails⟩
      · refine .inl ⟨{ r with pending := (name, p) :: r.pending }, by rw [hr]; rfl, hsub.cons_cons _,
          hinv.mono fun n hn => ?_, fun hp => Nat.succ_lt_succ (hprogress hp), fun hp => ?_⟩
        · refine hn.imp_right fun ⟨hin, hout⟩ => ?_
          rw [map_cons, mem_cons, not_or] at hout
          exact ⟨(mem_cons.mp hin).resolve_left hout.1, hout.2⟩
        · exact ⟨by rw [(hstuck hp).1], forall_mem_cons.mpr ⟨hmet, (hstuck hp).2⟩⟩
      · exact .inr ⟨⟨e, by rw [he]; rfl⟩, hfails⟩
    · rw [if_neg hmet]
      rcases evaluate_spec hready h hmem hmet with ⟨v, hv, hmeans⟩ | ⟨⟨e, he⟩, hfails⟩
      · rw [hv]
        rcases ih hpending (h.update hmeans) with ⟨r, hr, hsub, hinv, -, -⟩ | ⟨⟨e, he⟩, hfails⟩
        · refine .inl ⟨{ r with madeProgress := true }, ?_, hsub.cons _,
            hinv.mono fun n hn => ?_, fun _ => Nat.lt_succ_of_le hsub.length_le, by simp⟩
          · change (pass a m metricMap pending _ >>= _) = _
            rw [hr]
            rfl
          · rcases hn with hn | ⟨hin, hout⟩
            · exact .inl (.inl hn)
            · exact (mem_cons.mp hin).imp .inr fun hin => ⟨hin, hout⟩
        · refine .inr ⟨⟨e, ?_⟩, hfails⟩
          change (pass a m metricMap pending _ >>= _) = _
          rw [he]
          rfl
      · exact .inr ⟨⟨e, by rw [he]; rfl⟩, hfails⟩

theorem exists_met (hready : Ready a m metricMap base) (hacyclic : Acyclic (Refers metricMap))
    (hpending : ∀ x ∈ pending, x ∈ metricMap) (hne : pending ≠ [])
    (h : Inv a m metricMap base
      (fun n => n ∈ metricMap.map Prod.fst ∧ n ∉ pending.map Prod.fst) values) :
    ∃ x ∈ pending, ¬ isUnmet metricMap values x.2 := by
  obtain ⟨rank, hrank⟩ := hacyclic.exists_rank (s := metricMap.map Prod.fst)
    fun _ _ ⟨_, _, _, hmem⟩ => hmem
  -- the pending metric of least rank only refers to metrics that are done
  obtain ⟨x, hx, hmin⟩ := pending.toFinset.exists_min_image (fun x => rank x.1)
    (toFinset_nonempty_iff pending |>.mpr hne)
  replace hx := mem_toFinset.mp hx
  refine ⟨x, hx, fun hunmet => ?_⟩
  obtain ⟨r, hr, huser, hnone⟩ := isUnmet_iff.mp hunmet
  by_cases hpend : r ∈ pending.map Prod.fst
  · obtain ⟨y, hy, rfl⟩ := mem_map.mp hpend
    have hlookup := (lookup_eq_some_iff_mem hready.nodup).mpr (hpending x hx)
    exact absurd (hmin y (mem_toFinset.mpr hy)) (hrank _ _ ⟨x.2, hlookup, hr, huser⟩).not_ge
  · obtain ⟨v, hv, -⟩ := h.done r ⟨huser, hpend⟩
    rw [hnone] at hv
    cases hv

theorem passes_spec (hready : Ready a m metricMap base) (hacyclic : Acyclic (Refers metricMap))
    {n : ℕ} (hn : pending.length ≤ n)
    (hpending : ∀ x ∈ pending, x ∈ metricMap)
    (h : Inv a m metricMap base
      (fun n => n ∈ metricMap.map Prod.fst ∧ n ∉ pending.map Prod.fst) values) :
    (∃ values', passes a m metricMap n pending values = .ok ([], values') ∧
      Inv a m metricMap base (· ∈ metricMap.map Prod.fst) values') ∨
    (∃ e, passes a m metricMap n pending values = .error e) ∧ Fails a m metricMap base := by
  induction n generalizing pending values with
  | zero =>
    obtain rfl := length_eq_zero_iff.mp (Nat.le_zero.mp hn)
    exact .inl ⟨values, rfl, h.mono fun n hn => ⟨hn, not_mem_nil⟩⟩
  | succ n ih =>
    rw [passes]
    by_cases hempty : pending.isEmpty
    · obtain rfl := List.isEmpty_iff.mp hempty
      exact .inl ⟨values, rfl, h.mono fun n hn => ⟨hn, not_mem_nil⟩⟩
    rw [if_neg hempty]
    rcases pass_spec hready hpending h with ⟨r, hr, hsub, hinv, hprogress, hstuck⟩ | ⟨⟨e, he⟩, hfails⟩
    · have hmade : r.madeProgress := by
        by_contra hnot
        obtain ⟨x, hx, hmet⟩ := exists_met hready hacyclic hpending
          (fun hnil => hempty (List.isEmpty_iff.mpr hnil)) h
        exact hmet ((hstuck hnot).2 x hx)
      rw [hr]
      change (∃ values', (if r.madeProgress then _ else _) = _ ∧ _) ∨
        (∃ e, (if r.madeProgress then _ else _) = _) ∧ _
      rw [if_pos hmade]
      refine ih (Nat.le_of_lt_succ ((hprogress hmade).trans_le hn))
        (fun x hx => hpending x (hsub.subset hx)) (hinv.mono fun n hn => ?_)
      by_cases hin : n ∈ pending.map Prod.fst
      · exact .inr ⟨hin, hn.2⟩
      · exact .inl ⟨hn.1, hin⟩
    · exact .inr ⟨⟨e, by rw [he]; rfl⟩, hfails⟩

theorem pass_length_le {r : PassResult V}
    (h : pass a m metricMap pending values = .ok r) :
    r.pending.length + (if r.madeProgress then 1 else 0) ≤ pending.length := by
  induction pending generalizing values r with
  | nil =>
    obtain rfl := Except.ok.inj h
    simp
  | cons x pending ih =>
    rw [pass] at h
    split_ifs at h
    · obtain ⟨r', hr', h⟩ := Except.exists_of_bind_eq_ok h
      obtain rfl := Except.ok.inj h
      have hle := ih hr'
      simp only [length_cons]
      omega
    · obtain ⟨v, -, h⟩ := Except.exists_of_bind_eq_ok h
      obtain ⟨r', hr', h⟩ := Except.exists_of_bind_eq_ok h
      obtain rfl := Except.ok.inj h
      have hle := ih hr'
      simp only [length_cons, if_true]
      omega

theorem passes_of_le {n k : ℕ} (hn : pending.length ≤ n) (hk : n ≤ k) :
    passes a m metricMap k pending values = passes a m metricMap n pending values := by
  induction n generalizing k pending values with
  | zero =>
    obtain rfl := length_eq_zero_iff.mp (Nat.le_zero.mp hn)
    cases k <;> rfl
  | succ n ih =>
    obtain ⟨k, rfl⟩ := Nat.exists_eq_succ_of_ne_zero (Nat.ne_zero_of_lt hk)
    rw [passes, passes]
    cases hpass : pass a m metricMap pending values with
    | error e => rfl
    | ok r =>
      have hle := pass_length_le hpass
      cases hmade : r.madeProgress with
      | false => simp [hmade, bind, Except.bind]
      | true =>
        rw [hmade] at hle
        simp only [if_true] at hle
        simp only [bind, Except.bind, hmade, if_true,
          ih (by omega : r.pending.length ≤ n) (Nat.le_of_succ_le_succ hk)]

theorem mapM_valueOf {P : String → V → Prop} {metrics : MetricMap}
    (h : ∀ x ∈ metrics, ∃ v, values x.1 = some v ∧ P x.1 v) :
    ∃ vs, metrics.mapM (fun metric => valueOf values metric.1) = .ok vs ∧
      vs.map Prod.fst = metrics.map Prod.fst ∧ ∀ x ∈ vs, P x.1 x.2 := by
  induction metrics with
  | nil => exact ⟨[], rfl, rfl, by simp⟩
  | cons x metrics ih =>
    obtain ⟨⟨v, hv, hmeans⟩, htail⟩ := forall_mem_cons.mp h
    obtain ⟨vs, hvs, hnames, hall⟩ := ih htail
    refine ⟨(x.1, v) :: vs, ?_, by simp [hnames], forall_mem_cons.mpr ⟨hmeans, hall⟩⟩
    rw [mapM_cons, hvs, valueOf, hv]
    rfl

theorem evaluateMetricMap_right (hready : Ready a m metricMap base)
    (hacyclic : Acyclic (Refers metricMap)) : MapRight a m metricMap metricMap base := by
  have hinit : Inv a m metricMap base
      (fun n => n ∈ metricMap.map Prod.fst ∧ n ∉ metricMap.map Prod.fst) base :=
    ⟨hready.right, fun _ => id, fun _ hn => absurd hn.1 hn.2⟩
  by_cases hempty : metricMap.isEmpty
  · obtain rfl := List.isEmpty_iff.mp hempty
    exact ⟨by simp [evaluateMetricMap], by simp [evaluateMetricMap]⟩
  rcases passes_spec hready hacyclic le_rfl (fun _ => id) hinit with
    ⟨values, hvalues, hinv⟩ | ⟨⟨e, he⟩, name, hname, hfails⟩
  · obtain ⟨vs, hvs, hnames, hall⟩ := mapM_valueOf fun x hx => hinv.done x.1 (mem_map_of_mem hx)
    have heval : evaluateMetricMap a m metricMap base = .ok vs := by
      rw [evaluateMetricMap, if_neg hempty, hvalues]
      exact hvs
    refine ⟨⟨fun _ name hname => ?_, fun _ => ⟨vs, heval⟩⟩, fun vs' hvs' => ?_⟩
    · obtain ⟨v, -, hmeans⟩ := hinv.done name hname
      exact ⟨v, hmeans⟩
    · obtain rfl := Except.ok.inj (heval.symm.trans hvs')
      exact ⟨hnames, hall⟩
  · have heval : evaluateMetricMap a m metricMap base = .error e := by
      rw [evaluateMetricMap, if_neg hempty, he]
      rfl
    rw [MapRight, heval]
    exact ⟨⟨fun ⟨_, h⟩ => (nomatch h), fun h => absurd (h name hname) hfails⟩, fun _ h => (nomatch h)⟩

theorem MapRight.lookup_eq_some {specs : MetricMap} {vs : List (String × V)}
    (hright : MapRight a m specs metricMap base) (h : evaluateMetricMap a m metricMap base = .ok vs)
    {v : V} : vs.lookup name = some v ↔
      name ∈ metricMap.map Prod.fst ∧ Means a m specs base name v := by
  obtain ⟨hnames, hall⟩ := hright.2 vs h
  rw [← hnames]
  constructor
  · intro hlookup
    obtain ⟨l₁, l₂, rfl, -⟩ := lookup_eq_some_iff.mp hlookup
    exact ⟨by simp, hall (name, v) (by simp)⟩
  · rintro ⟨hmem, hmeans⟩
    have hsome : (vs.lookup name).isSome := by
      obtain ⟨x, hx, rfl⟩ := mem_map.mp hmem
      exact lookup_isSome_iff.mpr ⟨x, hx, beq_self_eq_true _⟩
    obtain ⟨w, hw⟩ := isSome_iff_exists.mp hsome
    obtain ⟨l₁, l₂, rfl, -⟩ := lookup_eq_some_iff.mp hw
    have hwv : w = v := (hall (name, w) (by simp)).unique hmeans
    rw [hw, hwv]

end Loop

/-! ### Definitions that are evaluated right -/

section Right

variable {a : Arithmetic V W} {m : Measured V} {o : Objective}
variable {fom : Option V} {v : V}

theorem baseValues_eq_some {energyDomain : Option String} :
    baseValues m energyDomain fom name = some v ↔ name = "fom" ∧ fom = some v ∨
      energyDomain.isSome ∧ (name = "power" ∧ m.power = v ∨ name = "energy" ∧ m.energy = v) ∨
      name = "time" ∧ m.time = v := by
  rw [baseValues.eq_def]
  split <;> simp_all

variable {base : String → Option V}

theorem means_of_not_mem
    (hname : name ∉ metricMap.map Prod.fst) (hv : base name = some v) :
    Means a m metricMap base name v := by
  refine .own ?_ hv
  rw [map_eq_none_iff, lookup_eq_none_iff]
  exact fun x hx => bne_iff_ne.mpr (ne_of_mem_of_not_mem (mem_map_of_mem hx) hname).symm

theorem regex_of_extractMetric {pattern : String} (h : m.extractMetric pattern = .ok v) :
    m.regex pattern = .ok v := by
  rw [Measured.extractMetric] at h
  rw [Measured.regex]
  split_ifs at h
  cases hsearch : m.search pattern m.stdout with
  | none => simp [hsearch] at h
  | some group =>
    cases group with
    | none => simp [hsearch] at h
    | some text =>
      simp only [hsearch] at h ⊢
      cases hfloat : m.float text with
      | none => simp [hfloat] at h
      | some w => simpa [hfloat] using h

theorem means_fom (h : measureFom m metricMap = .ok (some v)) :
    Means a m metricMap base "fom" v := by
  rw [measureFom, MetricMap.provider] at h
  split at h
  · rename_i pattern hlookup
    obtain ⟨w, hw, hwv⟩ := Except.exists_of_map_eq_ok h
    obtain rfl := Option.some.inj hwv
    have hd : (metricMap.lookup "fom").map (Provider.definition a m) =
        some ((Provider.regex pattern).definition a m) := by rw [hlookup, map_some]
    exact .defined base hd (fun r hr => by cases hr) (fun r w hr => by cases hr)
      (regex_of_extractMetric hw)
  · cases h

theorem mem_or_isSome_of_available {energyDomain : Option String}
    (h : name ∈ availableNames metricMap energyDomain) :
    name ∈ metricMap.map Prod.fst ∨ (baseValues m energyDomain fom name).isSome := by
  simp only [availableNames, immutableMetrics, mem_append, mem_singleton] at h
  rcases h with (huser | rfl) | hsampled
  · exact .inl huser
  · exact .inr rfl
  · refine .inr ?_
    cases energyDomain with
    | none => simp at hsampled
    | some domain => rcases mem_pair.mp hsampled with rfl | rfl <;> rfl

theorem Accepted.ready (h : Accepted o) (hunshadowed : Unshadowed o)
    (hperm : metricMap.Perm o.metricMap) (hfom : measureFom m metricMap = .ok fom) :
    Ready a m metricMap (baseValues m o.efficiencyDomain fom) := by
  have hmem {name : String} : name ∈ metricMap.map Prod.fst ↔ name ∈ o.metricMap.map Prod.fst :=
    (hperm.map Prod.fst).mem_iff
  refine ⟨(hperm.map Prod.fst).nodup_iff.mpr h.nodup, fun x hx r hr => ?_, fun x hx r hr v hv => ?_⟩
  · rw [hmem]
    exact mem_or_isSome_of_available (h.refs x (hperm.mem_iff.mp hx) r hr)
  · rcases baseValues_eq_some.mp hv with ⟨rfl, rfl⟩ | ⟨hdomain, hsampled⟩ | ⟨rfl, -⟩
    · exact means_fom hfom
    · refine means_of_not_mem (fun hin => ?_) hv
      refine hunshadowed hdomain x (hperm.mem_iff.mp hx) r hr ?_ (hmem.mp hin)
      exact mem_pair.mpr (hsampled.imp And.left And.left)
    · exact means_of_not_mem (fun hin => h.mutable (hmem.mp hin)) hv

theorem means_of_perm (h : Accepted o)
    (hperm : metricMap.Perm o.metricMap) : Means a m metricMap base = Means a m o.metricMap base := by
  simp only [Means, lookup_eq_of_perm hperm h.nodup]

theorem refers_of_perm (h : Accepted o) (hperm : metricMap.Perm o.metricMap) :
    Refers metricMap = Refers o.metricMap := by
  funext name ref
  simp only [Refers, lookup_eq_of_perm hperm h.nodup, (hperm.map Prod.fst).mem_iff]

theorem measureFom_of_perm (h : Accepted o) (hperm : metricMap.Perm o.metricMap) :
    measureFom m metricMap = measureFom m o.metricMap := by
  rw [measureFom, measureFom, MetricMap.provider, MetricMap.provider,
    lookup_eq_of_perm hperm h.nodup]

theorem Accepted.mapRight (h : Accepted o) (hacyclic : Acyclic (Refers o.metricMap))
    (hunshadowed : Unshadowed o) (hperm : metricMap.Perm o.metricMap)
    (hfom : measureFom m metricMap = .ok fom) :
    MapRight a m o.metricMap metricMap (baseValues m o.efficiencyDomain fom) := by
  have hright := evaluateMetricMap_right (h.ready (a := a) hunshadowed hperm hfom)
    (refers_of_perm h hperm ▸ hacyclic)
  rw [MapRight, means_of_perm h hperm] at hright
  refine ⟨hright.1.trans ⟨fun hall name hname => ?_, fun hall name hname => ?_⟩, hright.2⟩
  · exact hall name ((hperm.map Prod.fst).mem_iff.mpr hname)
  · exact hall name ((hperm.map Prod.fst).mem_iff.mp hname)

theorem trialValues_eq_some {vs : List (String × V)}
    (hperm : metricMap.Perm o.metricMap) (hright : MapRight a m o.metricMap metricMap base)
    (hvs : evaluateMetricMap a m metricMap base = .ok vs) :
    trialValues base vs name = some v ↔ Means a m o.metricMap base name v := by
  have hmem : name ∈ metricMap.map Prod.fst ↔ name ∈ o.metricMap.map Prod.fst :=
    (hperm.map Prod.fst).mem_iff
  by_cases hname : name ∈ metricMap.map Prod.fst
  · obtain ⟨w, hw⟩ := hright.1.mp ⟨vs, hvs⟩ name (hmem.mp hname)
    rw [trialValues, (hright.lookup_eq_some hvs).mpr ⟨hname, hw⟩, some_or,
      Option.some.injEq]
    exact ⟨fun heq => heq ▸ hw, hw.unique⟩
  · have hnone : vs.lookup name = none := by
      by_contra hsome
      obtain ⟨w, hw⟩ := ne_none_iff_exists'.mp hsome
      exact hname ((hright.lookup_eq_some hvs).mp hw).1
    rw [trialValues, hnone, none_or]
    refine ⟨means_of_not_mem (hmem.not.mp hname), fun hmeans => ?_⟩
    cases hmeans with
    | own _ hv => exact hv
    | defined env hd =>
      obtain ⟨p, hp, -⟩ := map_eq_some_iff.mp hd
      obtain ⟨l₁, l₂, heq, -⟩ := lookup_eq_some_iff.mp hp
      exact absurd (hmem.mpr (by rw [heq]; simp)) hname

theorem objectiveExpression_of_expr {expression : Expression}
    (h : metricMap.lookup name = some (.expr expression)) :
    objectiveExpression metricMap name = expression := by
  rw [objectiveExpression, MetricMap.provider, h]

theorem objectiveExpression_of_not_expr
    (h : ¬ ∃ expression, metricMap.lookup name = some (.expr expression)) :
    objectiveExpression metricMap name = nameExpression name := by
  rw [objectiveExpression, MetricMap.provider]
  split
  · exact absurd ⟨_, ‹_›⟩ h
  · rfl

theorem safeEval_nameExpression {values : String → Option V}
    (hname : name ∉ keywords) (hv : values name = some v) :
    safeEval a values (nameExpression name) = .ok v := by
  have heval : (Expr.name name).evaluate a values >>= a.toFloat = .ok v := by
    rw [Expr.evaluate, hv]
    exact a.toFloat_ofFloat v
  rw [nameExpression, if_neg hname, safeEval]
  simp only [heval]

theorem Accepted.objectiveRight (h : Accepted o) (hspeakable : Speakable o)
    (hperm : metricMap.Perm o.metricMap)
    (hright : MapRight a m o.metricMap metricMap (baseValues m o.efficiencyDomain fom)) :
    ObjectiveRight a m metricMap o.label (baseValues m o.efficiencyDomain fom) := by
  intro vs hvs
  have hvalue {name : String} (hname : name ∈ availableNames o.metricMap o.efficiencyDomain) :
      ∃ v, Means a m o.metricMap (baseValues m o.efficiencyDomain fom) name v := by
    by_cases huser : name ∈ o.metricMap.map Prod.fst
    · exact hright.1.mp ⟨vs, hvs⟩ name huser
    · obtain ⟨v, hv⟩ := isSome_iff_exists.mp
        ((mem_or_isSome_of_available hname).resolve_left huser)
      exact ⟨v, means_of_not_mem huser hv⟩
  obtain ⟨v, hv⟩ := hvalue h.label
  have hlabel := (trialValues_eq_some hperm hright hvs).mpr hv
  refine ⟨v, hlabel, ?_⟩
  by_cases hderived : ∃ expression, o.metricMap.lookup o.label = some (.expr expression)
  · obtain ⟨expression, hlookup⟩ := hderived
    rw [objectiveExpression_of_expr ((lookup_eq_of_perm hperm h.nodup _).trans hlookup)]
    refine hv.eval_eq (d := (Provider.expr expression).definition a m) (by rw [hlookup]; rfl) ?_
    intro r hr
    obtain ⟨w, hw⟩ := hvalue (h.refs _ ((lookup_eq_some_iff_mem h.nodup).mp hlookup) r hr)
    exact ⟨w, (trialValues_eq_some hperm hright hvs).mpr hw, hw⟩
  · rw [objectiveExpression_of_not_expr (by rwa [lookup_eq_of_perm hperm h.nodup])]
    exact safeEval_nameExpression (hspeakable.resolve_left hderived) hlabel

theorem Accepted.meaningful (h : Accepted o) (hacyclic : Acyclic (Refers o.metricMap))
    (hunshadowed : Unshadowed o) (hspeakable : Speakable o) : Meaningful o := by
  refine ⟨hacyclic, fun metricMap hperm V W a m fom hfom => ?_⟩
  have hright := h.mapRight (a := a) hacyclic hunshadowed hperm hfom
  refine ⟨hright, fun vs vs' hvs hvs' name => Option.ext fun v => ?_,
    h.objectiveRight hspeakable hperm hright⟩
  have hright' := h.mapRight (a := a) hacyclic hunshadowed (.refl _)
    ((measureFom_of_perm h hperm).symm.trans hfom)
  rw [hright'.lookup_eq_some hvs, hright.lookup_eq_some hvs', (hperm.map Prod.fst).mem_iff]

end Right

end Geopm.Metrics
