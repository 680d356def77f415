import Mathlib

/-!
# The piecewise-linear models of a job

The hooks of PBS share a model of how the figure of merit of a job grows with the power of its nodes,
and its inverse, from which the server predicts the power that an allowed slowdown needs.

* `parsePiecewiseModel`, `fomAtPower`, `powerAtFom` : the model, over exact numbers;
* `predictPowerCapAtPerformanceFactor` : what `geopm_power_limit_server.py` predicts;
* `LeastSufficient` : a power that reaches a target, below which no modelled power does;
* `powerAtFom_right_iff` : the targets for which the inverse is the least sufficient power.
-/

namespace Geopm.PiecewiseModel

open List

/-- The points of a model, in the order of their powers: a power with its figure of merit. -/
structure Curve where
  first : ℚ × ℚ
  rest : List (ℚ × ℚ)
  deriving DecidableEq

/-- The last of a point and the points after it. -/
def lastFrom : ℚ × ℚ → List (ℚ × ℚ) → ℚ × ℚ
  | previous, [] => previous
  | _, point :: points => lastFrom point points

/-- The point of the highest power. -/
def Curve.last (curve : Curve) : ℚ × ℚ := lastFrom curve.first curve.rest

/-- The loop of `_monotonize`. -/
def monotonizeFrom (previous : ℚ) : List ℚ → List ℚ
  | [] => []
  | value :: values =>
    let value := if value < previous then previous else value
    value :: monotonizeFrom value values

/-- `_monotonize`. -/
def monotonize : List ℚ → List ℚ
  | [] => []
  | value :: values => value :: monotonizeFrom value values

/-- `_parse_piecewise_model`, from the items of the model; `none` are two empty lists, which all
functions on them raise an `IndexError` for. -/
def parsePiecewiseModel (items : List (ℚ × ℚ)) : Option Curve :=
  let pairs := (items.map toLex).insertionSort (· ≤ ·)
  let powers := pairs.map fun pair => (ofLex pair).1
  let foms := monotonize (pairs.map fun pair => (ofLex pair).2)
  match powers.zip foms with
  | [] => none
  | first :: rest => some ⟨first, rest⟩

/-- The loop of `_interp`, from the point before. -/
def interpFrom (x : ℚ) : ℚ × ℚ → List (ℚ × ℚ) → ℚ
  | previous, [] => previous.2
  | previous, point :: points =>
    if x ≤ point.1 then
      let t := (x - previous.1) / (point.1 - previous.1)
      previous.2 + t * (point.2 - previous.2)
    else interpFrom x point points

/-- `_interp`, which is `fom_at_power`. -/
def fomAtPower (power : ℚ) (curve : Curve) : ℚ :=
  if power ≤ curve.first.1 then curve.first.2
  else if curve.last.1 ≤ power then curve.last.2
  else interpFrom power curve.first curve.rest

/-- The loop of `power_at_fom`, from the point before. -/
def powerFrom (targetFom : ℚ) : ℚ × ℚ → List (ℚ × ℚ) → ℚ
  | previous, [] => previous.1
  | previous, point :: points =>
    if targetFom ≤ point.2 then
      if point.2 = previous.2 then previous.1
      else
        let t := (targetFom - previous.2) / (point.2 - previous.2)
        previous.1 + t * (point.1 - previous.1)
    else powerFrom targetFom point points

def powerAtFom (targetFom : ℚ) (curve : Curve) : ℚ :=
  if targetFom ≤ curve.first.2 then curve.first.1
  else if curve.last.2 ≤ targetFom then curve.last.1
  else powerFrom targetFom curve.first curve.rest

/-! ### The prediction of the server -/

/-- A division, which raises a `ZeroDivisionError`. -/
def div (a b : ℚ) : Option ℚ := if b = 0 then none else some (a / b)

/-- What `get_model_from_config` returns for a job type. -/
inductive Model
  | originalQuadratic (maxPower x0 A B C : ℚ)
  | piecewiseLinear (curve : Option Curve)

/-- The power of a model for a slowdown. -/
def Model.power (sqrt : ℚ → ℚ) (slowdown : ℚ) : Model → Option ℚ
  | .originalQuadratic maxPower x0 A B C =>
    (div (-B + sqrt |B ^ 2 - 4 * A * (C - slowdown)|) (2 * A)).map fun root =>
      maxPower * (x0 - root)
  | .piecewiseLinear curve => do
    let curve ← curve
    let targetFom ← div curve.last.2 (1 + slowdown)
    pure (powerAtFom targetFom curve)

/-- `predict_power_cap_at_performance_factor`, which falls back to a linear mapping. -/
def predictPowerCapAtPerformanceFactor (sqrt : ℚ → ℚ) (model : Option Model)
    (slowdown minPowerPerNode maxPowerPerNode : ℚ) : Option ℚ := do
  let result ← (model.bind (·.power sqrt slowdown)).or (div maxPowerPerNode (slowdown + 1))
  pure (min (max minPowerPerNode result) maxPowerPerNode)

/-! ### What the inverse is for -/

/-- The powers grow, and the figures of merit do not fall. -/
def Ascending (previous : ℚ × ℚ) (points : List (ℚ × ℚ)) : Prop :=
  (previous :: points).Pairwise fun p q => p.1 < q.1 ∧ p.2 ≤ q.2

/-- A modelled power that reaches the target, below which no modelled power does. -/
structure LeastSufficient (curve : Curve) (f p : ℚ) : Prop where
  first_le : curve.first.1 ≤ p
  le_last : p ≤ curve.last.1
  reaches : f ≤ fomAtPower p curve
  below : ∀ q, curve.first.1 ≤ q → q < p → fomAtPower q curve < f

/-- The inverse is the least sufficient power for a target, no higher target has a lower power, and a
slowdown with this target is not predicted more than a sufficient power and the minimum for a node. -/
structure Right (curve : Curve) (f : ℚ) : Prop where
  least : f ≤ curve.last.2 → LeastSufficient curve f (powerAtFom f curve)
  monotone : ∀ f', f ≤ f' → powerAtFom f curve ≤ powerAtFom f' curve
  predicted : ∀ sqrt slowdown minPower maxPower, 0 ≤ slowdown → curve.last.2 / (1 + slowdown) = f →
    ∃ cap, predictPowerCapAtPerformanceFactor sqrt (some (.piecewiseLinear (some curve))) slowdown
        minPower maxPower = some cap ∧
      ∀ q, curve.first.1 ≤ q → f ≤ fomAtPower q curve → cap ≤ max minPower q

/-- The target is not the largest figure of merit, or that is the one of the lowest power, or no point
but the last has it. -/
def Spares (curve : Curve) (f : ℚ) : Prop :=
  f = curve.last.2 → f ≤ curve.first.2 ∨
    ∀ point ∈ curve.first :: curve.rest, point.1 < curve.last.1 → point.2 < curve.last.2

section Loops

variable {previous point : ℚ × ℚ} {points : List (ℚ × ℚ)} {f x : ℚ}

theorem Ascending.le_last (h : Ascending previous points) :
    previous.1 ≤ (lastFrom previous points).1 ∧ previous.2 ≤ (lastFrom previous points).2 := by
  induction points generalizing previous with
  | nil => exact ⟨le_rfl, le_rfl⟩
  | cons point points ih =>
    obtain ⟨hfirst, h⟩ := pairwise_cons.mp h
    obtain ⟨hlt, hle⟩ := hfirst point mem_cons_self
    obtain ⟨hpower, hfom⟩ := ih h
    exact ⟨hlt.le.trans hpower, hle.trans hfom⟩

/-- The first segment, and the points after it. -/
theorem Ascending.cons (h : Ascending previous (point :: points)) :
    previous.1 < point.1 ∧ previous.2 ≤ point.2 ∧ Ascending point points :=
  have ⟨hfirst, h⟩ := pairwise_cons.mp h
  ⟨(hfirst point mem_cons_self).1, (hfirst point mem_cons_self).2, h⟩

/-- The power at which a rising segment reaches a target. -/
theorem le_segment_iff (hlt : previous.1 < point.1) (hrise : previous.2 < point.2) :
    f ≤ previous.2 + (x - previous.1) / (point.1 - previous.1) * (point.2 - previous.2) ↔
      previous.1 + (f - previous.2) / (point.2 - previous.2) * (point.1 - previous.1) ≤ x := by
  have hpower : 0 < point.1 - previous.1 := sub_pos.mpr hlt
  have hfom : 0 < point.2 - previous.2 := sub_pos.mpr hrise
  rw [← sub_le_iff_le_add', ← le_sub_iff_add_le', div_mul_eq_mul_div, div_mul_eq_mul_div,
    le_div_iff₀ hpower, div_le_iff₀ hfom]

/-- A segment does not leave the figures of merit of its ends. -/
theorem segment_le (hlt : previous.1 < point.1) (hle : previous.2 ≤ point.2) (hx : x ≤ point.1) :
    previous.2 + (x - previous.1) / (point.1 - previous.1) * (point.2 - previous.2) ≤ point.2 := by
  have ht : (x - previous.1) / (point.1 - previous.1) ≤ 1 :=
    (div_le_one₀ (sub_pos.mpr hlt)).mpr (by linarith)
  have hmul := mul_le_of_le_one_left (sub_nonneg.mpr hle) ht
  linarith

theorem le_interpFrom (h : Ascending previous points) (hx : previous.1 ≤ x) :
    previous.2 ≤ interpFrom x previous points := by
  induction points generalizing previous with
  | nil => exact le_rfl
  | cons point points ih =>
    obtain ⟨hlt, hle, h⟩ := h.cons
    unfold interpFrom
    split_ifs with hxle
    · exact le_add_of_nonneg_right (mul_nonneg
        (div_nonneg (sub_nonneg.mpr hx) (sub_pos.mpr hlt).le) (sub_nonneg.mpr hle))
    · exact hle.trans (ih h (not_le.mp hxle).le)

theorem interpFrom_le (h : Ascending previous points) :
    interpFrom x previous points ≤ (lastFrom previous points).2 := by
  induction points generalizing previous with
  | nil => exact le_rfl
  | cons point points ih =>
    obtain ⟨hlt, hle, h⟩ := h.cons
    unfold interpFrom
    split_ifs with hxle
    · exact (segment_le hlt hle hxle).trans h.le_last.2
    · exact ih h

theorem interpFrom_point (hlt : previous.1 < point.1) :
    interpFrom point.1 previous (point :: points) = point.2 := by
  unfold interpFrom
  rw [if_pos le_rfl, div_self (sub_pos.mpr hlt).ne']
  dsimp only
  rw [one_mul, add_sub_cancel]

theorem interpFrom_of_mem (h : Ascending previous points) (hmem : point ∈ points) :
    interpFrom point.1 previous points = point.2 := by
  induction points generalizing previous with
  | nil => exact absurd hmem not_mem_nil
  | cons next points ih =>
    obtain rfl | hmem := mem_cons.mp hmem
    · exact interpFrom_point h.cons.1
    · have hlt := ((pairwise_cons.mp h.cons.2.2).1 point hmem).1
      unfold interpFrom
      rw [if_neg hlt.not_ge]
      exact ih h.cons.2.2 hmem

theorem lastFrom_mem : lastFrom previous points ∈ previous :: points := by
  induction points generalizing previous with
  | nil => exact mem_cons_self
  | cons point points ih => exact mem_cons_of_mem _ ih

theorem lt_powerFrom (h : Ascending previous points) (hf : previous.2 < f)
    (hlast : f ≤ (lastFrom previous points).2) : previous.1 < powerFrom f previous points := by
  induction points generalizing previous with
  | nil => exact absurd hlast hf.not_ge
  | cons point points ih =>
    obtain ⟨hlt, hle, h⟩ := h.cons
    unfold powerFrom
    split_ifs with hpoint hflat
    · exact absurd hpoint (hflat ▸ hf).not_ge
    · exact lt_add_of_pos_right _ (mul_pos (div_pos (sub_pos.mpr hf)
        (sub_pos.mpr (hf.trans_le hpoint))) (sub_pos.mpr hlt))
    · exact hlt.trans (ih h (not_le.mp hpoint) hlast)

/-- **The two loops are inverse** : a power reaches a target above the point before when it is not
below the power of the target. -/
theorem le_interpFrom_iff (h : Ascending previous points) (hf : previous.2 < f)
    (hlast : f ≤ (lastFrom previous points).2) :
    f ≤ interpFrom x previous points ↔ powerFrom f previous points ≤ x := by
  induction points generalizing previous with
  | nil => exact absurd hlast hf.not_ge
  | cons point points ih =>
    obtain ⟨hlt, hle, h⟩ := h.cons
    unfold interpFrom powerFrom
    by_cases hpoint : f ≤ point.2
    · have hrise := hf.trans_le hpoint
      rw [if_pos hpoint, if_neg hrise.ne']
      split_ifs with hxle
      · exact le_segment_iff hlt hrise
      · -- beyond the segment, the target has been reached
        have hend : f ≤ previous.2 +
            (point.1 - previous.1) / (point.1 - previous.1) * (point.2 - previous.2) := by
          rwa [div_self (sub_pos.mpr hlt).ne', one_mul, add_sub_cancel]
        have hx := (not_le.mp hxle).le
        exact iff_of_true (hpoint.trans (le_interpFrom h hx))
          (((le_segment_iff hlt hrise).mp hend).trans hx)
    · rw [if_neg hpoint]
      have hpoint := not_le.mp hpoint
      split_ifs with hxle
      · exact iff_of_false ((segment_le hlt hle hxle).trans_lt hpoint).not_ge
          (hxle.trans_lt (lt_powerFrom h hpoint hlast)).not_ge
      · exact ih h hpoint hlast

/-- When no point but the last reaches the target, its power is the last one. -/
theorem powerFrom_last (h : Ascending previous points)
    (hbelow : ∀ point ∈ previous :: points, point.1 < (lastFrom previous points).1 →
      point.2 < (lastFrom previous points).2) (hne : points ≠ []) :
    powerFrom (lastFrom previous points).2 previous points = (lastFrom previous points).1 := by
  induction points generalizing previous with
  | nil => exact absurd rfl hne
  | cons point points ih =>
    obtain ⟨hlt, hle, h⟩ := h.cons
    unfold powerFrom
    cases points with
    | nil =>
      have hrise : previous.2 < point.2 := hbelow previous mem_cons_self hlt
      unfold lastFrom lastFrom
      rw [if_pos le_rfl, if_neg hrise.ne']
      dsimp only
      rw [div_self (sub_pos.mpr hrise).ne', one_mul, add_sub_cancel]
    | cons next points =>
      have hpoint := hbelow point (mem_cons_of_mem _ mem_cons_self)
        (h.cons.1.trans_le h.cons.2.2.le_last.1)
      rw [if_neg hpoint.not_ge]
      exact ih h (fun p hp => hbelow p (mem_cons_of_mem _ hp)) (cons_ne_nil _ _)

end Loops

section Inverse

variable {curve : Curve} {f x : ℚ}

theorem fomAtPower_first (curve : Curve) : fomAtPower curve.first.1 curve = curve.first.2 :=
  if_pos le_rfl

theorem rest_ne_nil (hf : curve.first.2 < curve.last.2) : curve.rest ≠ [] := by
  intro hnil
  rw [Curve.last, hnil] at hf
  exact lt_irrefl _ hf

section

variable (h : Ascending curve.first curve.rest)
include h

theorem first_lt_last (hne : curve.rest ≠ []) :
    curve.first.1 < curve.last.1 := by
  unfold Curve.last
  cases hrest : curve.rest with
  | nil => exact absurd hrest hne
  | cons point points =>
    rw [hrest] at h
    exact h.cons.1.trans_le h.cons.2.2.le_last.1

theorem fomAtPower_eq (hx : curve.first.1 < x) (hxle : x ≤ curve.last.1) :
    fomAtPower x curve = interpFrom x curve.first curve.rest := by
  unfold fomAtPower
  rw [if_neg hx.not_ge]
  split_ifs with hlast
  · obtain rfl := hxle.antisymm hlast
    have hlast : curve.last ∈ curve.first :: curve.rest := lastFrom_mem
    obtain heq | hmem := mem_cons.mp hlast
    · exact absurd hx (by rw [heq]; exact lt_irrefl _)
    · exact (interpFrom_of_mem h hmem).symm
  · rfl

theorem fomAtPower_le : fomAtPower x curve ≤ curve.last.2 := by
  unfold fomAtPower
  split_ifs
  · exact h.le_last.2
  · exact le_rfl
  · exact interpFrom_le h

/-- The loop finds the least sufficient power. -/
theorem leastSufficient_powerFrom (hf : curve.first.2 < f)
    (hlast : f ≤ curve.last.2) : LeastSufficient curve f (powerFrom f curve.first curve.rest) := by
  have hlt := lt_powerFrom h hf hlast
  have hends := first_lt_last h (rest_ne_nil (hf.trans_le hlast))
  have hle : powerFrom f curve.first curve.rest ≤ curve.last.1 := by
    rw [← le_interpFrom_iff h hf hlast, ← fomAtPower_eq h hends le_rfl]
    unfold fomAtPower
    rwa [if_neg hends.not_ge, if_pos le_rfl]
  refine ⟨hlt.le, hle, ?_, fun q hq hqlt => ?_⟩
  · rw [fomAtPower_eq h hlt hle, le_interpFrom_iff h hf hlast]
  · obtain heq | hq := hq.eq_or_lt
    · rwa [← heq, fomAtPower_first]
    · rwa [fomAtPower_eq h hq (hqlt.le.trans hle), ← not_le, le_interpFrom_iff h hf hlast, not_le]

theorem leastSufficient_first (hf : f ≤ curve.first.2) :
    LeastSufficient curve f curve.first.1 :=
  ⟨le_rfl, h.le_last.1, (fomAtPower_first curve).symm ▸ hf, fun _ hq hlt => absurd hlt hq.not_gt⟩

theorem leastSufficient_of_spares (hspares : Spares curve f)
    (hlast : f ≤ curve.last.2) : LeastSufficient curve f (powerAtFom f curve) := by
  unfold powerAtFom
  split_ifs with hfirst htop
  · exact leastSufficient_first h hfirst
  · -- at the top, only the last point reaches the target
    have hf := not_le.mp hfirst
    obtain rfl := hlast.antisymm htop
    have hbelow := (hspares rfl).resolve_left hfirst
    have hpower := powerFrom_last h hbelow (rest_ne_nil hf)
    exact hpower ▸ leastSufficient_powerFrom h hf le_rfl
  · exact leastSufficient_powerFrom h (not_le.mp hfirst) hlast

theorem spares_of_leastSufficient
    (hleast : f ≤ curve.last.2 → LeastSufficient curve f (powerAtFom f curve)) : Spares curve f := by
  rintro rfl
  refine or_iff_not_imp_left.mpr fun hfirst point hmem hlt => ?_
  have hleast := hleast le_rfl
  unfold powerAtFom at hleast
  rw [if_neg hfirst, if_pos le_rfl] at hleast
  obtain rfl | hmem := mem_cons.mp hmem
  · exact not_le.mp hfirst
  · have hpoint := ((pairwise_cons.mp h).1 point hmem).1
    have hbelow := hleast.below point.1 hpoint.le hlt
    rwa [fomAtPower_eq h hpoint hlt.le, interpFrom_of_mem h hmem] at hbelow

theorem powerAtFom_mono {f' : ℚ} (hle : f ≤ f') :
    powerAtFom f curve ≤ powerAtFom f' curve := by
  unfold powerAtFom
  by_cases hfirst : f ≤ curve.first.2
  · rw [if_pos hfirst]
    split_ifs with hfirst' htop'
    · exact le_rfl
    · exact h.le_last.1
    · exact (lt_powerFrom h (not_le.mp hfirst') (not_le.mp htop').le).le
  · rw [if_neg hfirst, if_neg fun hfirst' => hfirst (hle.trans hfirst')]
    split_ifs with htop htop' htop'
    · exact le_rfl
    · exact absurd (htop.trans hle) htop'
    · exact (leastSufficient_powerFrom h (not_le.mp hfirst) (not_le.mp htop).le).le_last
    · rw [← le_interpFrom_iff h (not_le.mp hfirst) (not_le.mp htop).le]
      have hf' := (not_le.mp hfirst).trans_le hle
      exact hle.trans ((le_interpFrom_iff h hf' (not_le.mp htop').le).mpr le_rfl)

end

theorem LeastSufficient.le {p q : ℚ} (h : LeastSufficient curve f p) (hq : curve.first.1 ≤ q)
    (hreach : f ≤ fomAtPower q curve) : p ≤ q :=
  not_lt.mp fun hlt => (h.below q hq hlt).not_ge hreach

theorem right_iff (h : Ascending curve.first curve.rest) : Right curve f ↔ Spares curve f := by
  refine ⟨fun hright => spares_of_leastSufficient h hright.least, fun hspares => ⟨
    leastSufficient_of_spares h hspares, fun f' => powerAtFom_mono h, ?_⟩⟩
  rintro sqrt slowdown minPower maxPower hslowdown rfl
  have hne : (1 : ℚ) + slowdown ≠ 0 := by positivity
  refine ⟨min (max minPower (powerAtFom (curve.last.2 / (1 + slowdown)) curve)) maxPower, ?_,
    fun q hq hreach => (min_le_left _ _).trans (max_le_max_left minPower ?_)⟩
  · simp [predictPowerCapAtPerformanceFactor, Model.power, div, hne]
  · exact (leastSufficient_of_spares h hspares (hreach.trans (fomAtPower_le h))).le hq hreach

end Inverse

/-! ### The models that are parsed -/

theorem le_of_mem_monotonizeFrom {previous value : ℚ} {values : List ℚ}
    (h : value ∈ monotonizeFrom previous values) : previous ≤ value := by
  induction values generalizing previous with
  | nil => exact absurd h not_mem_nil
  | cons next values ih =>
    have hle : previous ≤ if next < previous then previous else next := by
      split_ifs with hlt
      · exact le_rfl
      · exact not_lt.mp hlt
    obtain rfl | h := mem_cons.mp h
    · exact hle
    · exact hle.trans (ih h)

theorem ascending_zip {p : ℚ} {v : ℚ} {ps vs : List ℚ} (h : (p :: ps).Pairwise (· < ·)) :
    Ascending (p, v) (ps.zip (monotonizeFrom v vs)) := by
  induction ps generalizing p v vs with
  | nil => exact pairwise_singleton _ _
  | cons q ps ih =>
    cases vs with
    | nil => exact pairwise_singleton _ _
    | cons w vs =>
      obtain ⟨hfirst, h⟩ := pairwise_cons.mp h
      refine pairwise_cons.mpr ⟨fun point hmem => ?_, ih h⟩
      obtain ⟨hpower, hfom⟩ := of_mem_zip hmem
      exact ⟨hfirst _ hpower, le_of_mem_monotonizeFrom hfom⟩

theorem exists_parse {items : List (ℚ × ℚ)} (hne : items ≠ [])
    (hdistinct : (items.map Prod.fst).Nodup) :
    ∃ curve, parsePiecewiseModel items = some curve ∧ Ascending curve.first curve.rest := by
  have hperm : ((items.map toLex).insertionSort (· ≤ ·)).Perm (items.map toLex) :=
    perm_insertionSort _ _
  have hsorted := pairwise_insertionSort (· ≤ ·) (items.map toLex)
  unfold parsePiecewiseModel
  generalize (items.map toLex).insertionSort (· ≤ ·) = pairs at hperm hsorted ⊢
  have hnodup : (pairs.map fun pair => (ofLex pair).1).Nodup := by
    rw [(hperm.map _).nodup_iff, map_map]
    exact hdistinct
  have hle : (pairs.map fun pair => (ofLex pair).1).Pairwise (· ≤ ·) :=
    hsorted.map _ fun a b => Prod.Lex.monotone_fst a b
  have hlt : (pairs.map fun pair => (ofLex pair).1).Pairwise (· < ·) :=
    (hle.and hnodup).imp fun hab => hab.1.lt_of_ne hab.2
  cases pairs with
  | nil => exact absurd (map_eq_nil_iff.mp hperm.symm.eq_nil) hne
  | cons pair pairs => exact ⟨_, rfl, ascending_zip hlt⟩

/-- **The inverse is the least sufficient power** of a model with distinct powers, for the targets
that are not the figure of merit of a flat stretch at the top. -/
theorem powerAtFom_right_iff {items : List (ℚ × ℚ)} (hne : items ≠ [])
    (hdistinct : (items.map Prod.fst).Nodup) (f : ℚ) :
    ∃ curve, parsePiecewiseModel items = some curve ∧ (Right curve f ↔ Spares curve f) := by
  obtain ⟨curve, hcurve, hascending⟩ := exists_parse hne hdistinct
  exact ⟨curve, hcurve, right_iff hascending⟩

theorem powerAtFom_right_threePoints :
    ([(200, 2), (100, 1), (300, 3)] : List (ℚ × ℚ)) ≠ [] ∧ ∃ curve,
      parsePiecewiseModel [(200, 2), (100, 1), (300, 3)] = some curve ∧
        (Right curve 2 ↔ Spares curve 2) :=
  ⟨cons_ne_nil _ _, powerAtFom_right_iff (cons_ne_nil _ _) (by decide) 2⟩

/-- Without any slowdown, a saturated model is predicted its highest power, and a lower one is
sufficient. -/
theorem not_powerAtFom_right : ¬ ∀ items : List (ℚ × ℚ), items ≠ [] → (items.map Prod.fst).Nodup →
    ∀ curve, parsePiecewiseModel items = some curve → ∀ f, Right curve f := by
  intro hright
  obtain ⟨cap, hcap, hleast⟩ := (hright [(100, 1), (200, 2), (300, 2)] (cons_ne_nil _ _)
    (by decide) ⟨(100, 1), [(200, 2), (300, 2)]⟩ (by decide +kernel) 2).predicted id 0 50 400 le_rfl
    (by decide +kernel)
  have hpredicted : predictPowerCapAtPerformanceFactor id
      (some (.piecewiseLinear (some ⟨(100, 1), [(200, 2), (300, 2)]⟩))) 0 50 400 = some 300 := by
    decide +kernel
  rw [hpredicted] at hcap
  obtain rfl := Option.some.inj hcap
  exact absurd (hleast 200 (by decide +kernel) (by decide +kernel)) (by decide +kernel)

end Geopm.PiecewiseModel
