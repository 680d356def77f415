import Geopm.Exception
import Geopm.Lib.Prog

/-!
# IOGroups and the topology

What `PlatformIO` is given: the topology of the platform, and the IOGroups that read and write it.

* `Value` : a `double`, with exact arithmetic;
* `Agg` : the aggregation functions;
* `PlatformTopo` : the domains and how they nest;
* `IOGroup` : an IOGroup, whose batch methods do what its immediate methods do;
* `IOGroup.ofRegisters` : an IOGroup over registers that remembers what has been pushed.
-/

namespace Geopm.Pio

open Prog
open List hiding get set

/-- A `double`, with exact arithmetic; `none` stands for NaN. -/
abbrev Value := Option ℚ

/-! ### Aggregation -/

/-- `Agg::m_type_e`. -/
inductive AggType where
  | sum | average | median | integerBitwiseOr | logicalAnd | logicalOr | min | max | stddev
  | regionHash | regionHint | selectFirst | expectSame
deriving DecidableEq, Repr

/-- An aggregation function, with its type. -/
structure Agg where
  type : AggType
  apply : List Value → Value

namespace Agg

def nanFilter (operand : List Value) : List ℚ := operand.filterMap id

/-- An aggregation that is NaN when all operands are. -/
def filtered (f : List ℚ → ℚ) (operand : List Value) : Value :=
  if nanFilter operand = [] then none else some (f (nanFilter operand))

/-- `Agg::sum`. -/
def sum : Agg := ⟨.sum, filtered List.sum⟩

/-- `Agg::average`. -/
def average : Agg := ⟨.average, filtered fun operand => operand.sum / operand.length⟩

/-- `Agg::median`, of the operands that are not NaN. -/
def medianOf (operand : List ℚ) : ℚ :=
  let sorted := operand.mergeSort
  let midIdx := operand.length / 2
  if operand.length % 2 = 0 then (sorted[midIdx]?.getD 0 + sorted[midIdx - 1]?.getD 0) / 2
  else sorted[midIdx]?.getD 0

/-- `Agg::median`. -/
def median : Agg := ⟨.median, filtered medianOf⟩

/-- `Agg::min`. -/
def min : Agg := ⟨.min, filtered fun operand => operand.foldl Min.min (operand.headD 0)⟩

/-- `Agg::max`. -/
def max : Agg := ⟨.max, filtered fun operand => operand.foldl Max.max (operand.headD 0)⟩

def expectSame : Agg where
  type := .expectSame
  apply operand :=
    match nanFilter operand with
    | [] => none
    | value :: rest => if rest.all (· == value) then some value else none

theorem nanFilter_replicate (n : ℕ) (x : ℚ) :
    nanFilter (List.replicate n (some x)) = List.replicate n x := by
  induction n with
  | zero => rfl
  | succ n ih => rw [replicate_succ, replicate_succ, ← ih]; rfl

theorem filtered_replicate (f : List ℚ → ℚ) (n : ℕ) (x : ℚ) :
    filtered f (List.replicate (n + 1) (some x)) = some (f (List.replicate (n + 1) x)) := by
  unfold filtered
  have hne : List.replicate (n + 1) x ≠ [] := cons_ne_nil _ _
  rw [nanFilter_replicate, if_neg hne]

theorem median_replicate (n : ℕ) (x : ℚ) :
    median.apply (List.replicate (n + 1) (some x)) = some x := by
  refine (filtered_replicate _ n x).trans ?_
  have hsorted : (List.replicate (n + 1) x).mergeSort = List.replicate (n + 1) x :=
    eq_replicate_iff.mpr ⟨by rw [length_mergeSort, length_replicate],
      fun y hy => eq_of_mem_replicate (mem_mergeSort.mp hy)⟩
  have hget : ∀ i ≤ n, (List.replicate (n + 1) x)[i]?.getD 0 = x := by
    intro i hi
    rw [getElem?_replicate_of_lt (by omega)]
    rfl
  unfold medianOf
  dsimp only
  rw [hsorted, length_replicate, hget _ (by omega), hget _ (by omega), ← mul_two,
    mul_div_cancel_right₀ x (by decide : (2 : ℚ) ≠ 0), ite_self]

end Agg

/-! ### The topology -/

/-- `GEOPM_NUM_DOMAIN`. -/
def numDomainType : ℤ := 11

/-- The methods of `PlatformTopo` that `PlatformIO` uses. -/
structure PlatformTopo where
  numDomain : ℤ → ℤ
  isNestedDomain : ℤ → ℤ → Bool
  /-- The elements of the set `domain_nested`, in their order. -/
  domainNested : ℤ → ℤ → ℤ → List ℤ
  sorted : ∀ innerDomain outerDomain outerIdx,
    (domainNested innerDomain outerDomain outerIdx).Pairwise (· < ·)

/-! ### IOGroups -/

/-- A name, a domain type and a domain index. -/
structure Request where
  name : String
  domainType : ℤ
  domainIdx : ℤ
deriving DecidableEq, Repr

/-- Nothing that has been pushed or adjusted is lost between two internal states. -/
def IOGroup.Kept {S : Type} (signalPushed controlPushed : S → Request → ℤ → Prop)
    (pending : S → List (Request × Value)) (s s' : S) : Prop :=
  (∀ t i, signalPushed s t i → signalPushed s' t i) ∧
    (∀ t i, controlPushed s t i → controlPushed s' t i) ∧ pending s' = pending s

/-- An IOGroup with the internal state `S` on the hardware `H`.  Its batch methods do what its
immediate ones do: a pushed signal is sampled as it is read, and the adjustments that are pending
are written one by one. -/
structure IOGroup (S H : Type) where
  isValidSignal : String → Bool
  isValidControl : String → Bool
  signalDomainType : String → ℤ
  controlDomainType : String → ℤ
  aggFunction : String → Agg
  /-- What `read_signal` raises, if it does. -/
  readError : Request → Option Exception
  value : Request → H → Value
  /-- What `write_control` raises, if it does. -/
  writeError : Request → Option Exception
  write : Request → Value → H → H
  pushSignal : Request → EStateM Exception S ℤ
  pushControl : Request → EStateM Exception S ℤ
  readBatch : H → S → S
  sample : ℤ → S → Except Exception Value
  adjust : ℤ → Value → EStateM Exception S Unit
  writeBatch : S → H → H
  /-- The signal has been pushed and has the index. -/
  signalPushed : S → Request → ℤ → Prop
  /-- The control has been pushed and has the index. -/
  controlPushed : S → Request → ℤ → Prop
  /-- The adjustments that the next `write_batch` writes. -/
  pending : S → List (Request × Value)
  pushSignal_spec : ∀ t s, wp (pushSignal t)
    (fun i s' => signalPushed s' t i ∧ IOGroup.Kept signalPushed controlPushed pending s s')
    (fun _ s' => IOGroup.Kept signalPushed controlPushed pending s s') s
  pushControl_spec : ∀ t s, wp (pushControl t)
    (fun i s' => controlPushed s' t i ∧ IOGroup.Kept signalPushed controlPushed pending s s')
    (fun _ s' => IOGroup.Kept signalPushed controlPushed pending s s') s
  readBatch_spec : ∀ h s, IOGroup.Kept signalPushed controlPushed pending s (readBatch h s) ∧
    ∀ t i, signalPushed s t i → readError t = none → sample i (readBatch h s) = .ok (value t h)
  adjust_spec : ∀ t i v s, controlPushed s t i → writeError t = none → wp (adjust i v)
    (fun _ s' => (∀ t' i', controlPushed s t' i' → controlPushed s' t' i') ∧
      pending s' = pending s ++ [(t, v)]) (fun _ _ => False) s
  writeBatch_spec : ∀ s h, writeBatch s h = (pending s).foldl (fun h tv => write tv.1 tv.2 h) h

namespace IOGroup

variable {S H : Type} (g : IOGroup S H)

def readSignal (t : Request) (h : H) : Except Exception Value :=
  match g.readError t with
  | some e => .error e
  | none => .ok (g.value t h)

def writeControl (t : Request) (v : Value) (h : H) : Except Exception H :=
  match g.writeError t with
  | some e => .error e
  | none => .ok (g.write t v h)

/-! ### An IOGroup over registers -/

/-- What has been pushed, what has been read and what has been adjusted. -/
structure Slots where
  signals : List Request := []
  controls : List Request := []
  batch : List Value := []
  settings : List (Request × Value) := []

/-- An IOGroup that has every name, on hardware with one register for each request. -/
def ofRegisters (domainType : ℤ) (agg : Agg) (readError writeError : Request → Option Exception) :
    IOGroup Slots (Request → Value) where
  isValidSignal _ := true
  isValidControl _ := true
  signalDomainType _ := domainType
  controlDomainType _ := domainType
  aggFunction _ := agg
  readError := readError
  value t h := h t
  writeError := writeError
  write t v h := fun t' => if t' = t then v else h t'
  pushSignal t := do
    let s ← get
    set { s with signals := s.signals ++ [t] }
    pure s.signals.length
  pushControl t := do
    let s ← get
    set { s with controls := s.controls ++ [t] }
    pure s.controls.length
  readBatch h s := { s with batch := s.signals.map h }
  sample i s :=
    match s.batch[i.toNat]? with
    | some v => .ok v
    | none => .error ⟨"sample(): batch_idx out of range", [], .invalid⟩
  adjust i v := do
    let s ← get
    match s.controls[i.toNat]? with
    | some t => set { s with settings := s.settings ++ [(t, v)] }
    | none => throw ⟨"adjust(): batch_idx out of range", [], .invalid⟩
  writeBatch s h := s.settings.foldl (fun h tv t' => if t' = tv.1 then tv.2 else h t') h
  signalPushed s t i := s.signals[i.toNat]? = some t
  controlPushed s t i := s.controls[i.toNat]? = some t
  pending s := s.settings
  pushSignal_spec t s := by
    rw [wp_bind, wp_get, wp_bind, wp_set, wp_pure]
    refine ⟨?_, fun t' i ht' => ?_, fun _ _ h => h, rfl⟩
    · rw [Int.toNat_natCast]
      exact getElem?_concat_length
    · exact (getElem?_append_left (List.getElem?_eq_some_iff.mp ht').1).trans ht'
  pushControl_spec t s := by
    rw [wp_bind, wp_get, wp_bind, wp_set, wp_pure]
    refine ⟨?_, fun _ _ h => h, fun t' i ht' => ?_, rfl⟩
    · rw [Int.toNat_natCast]
      exact getElem?_concat_length
    · exact (getElem?_append_left (List.getElem?_eq_some_iff.mp ht').1).trans ht'
  readBatch_spec h s := by
    refine ⟨⟨fun _ _ h => h, fun _ _ h => h, rfl⟩, fun t i ht _ => ?_⟩
    dsimp only
    rw [getElem?_map, ht]
    rfl
  adjust_spec t i v s ht _ := by
    rw [wp_bind, wp_get, ht]
    exact ⟨fun _ _ h => h, rfl⟩
  writeBatch_spec _ _ := rfl

end IOGroup

end Geopm.Pio
