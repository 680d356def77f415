import Geopm.Pio.IOGroup

/-!
# `PlatformIOImp`

Signals and controls are requested by name, domain type and domain index, and are served by the
IOGroups, of which the last registered one is asked first.

* `PlatformIOImp` : its members, with the states of the IOGroups;
* `Platform.pushSignal`, `readBatch`, `sample` and `Platform.pushControl`, `adjust`, `writeBatch` :
  the batch methods;
* `Platform.readSignal` and `Platform.writeControl` : the immediate methods;
* `Platform.push_eq`, `readSignal_eq`, `writeControl_eq` : the methods call themselves at the native
  domain, at which they do not call themselves again.
-/

namespace Geopm.Pio

open Prog
open List hiding get modify set

/-- Signals and controls. -/
inductive Kind where
  | signal
  | control
deriving DecidableEq, Repr

/-- A `CombinedSignal` has an aggregation function, a `CombinedControl` a factor. -/
def Combiner : Kind → Type
  | .signal => Agg
  | .control => ℚ

/-- `m_existing_*`, `m_active_*` and `m_combined_*`.  What is active is served by an IOGroup,
which is given by its position, or is combined. -/
structure PushTable (kind : Kind) where
  existing : Request → Option ℤ := fun _ => none
  active : List (Option ℕ × ℤ) := []
  combined : ℤ → Option (List ℤ × Combiner kind) := fun _ => none

/-- The members of `PlatformIOImp`, and the internal state and the hardware of each IOGroup. -/
structure PlatformIOImp (S H : Type) where
  isSignalActive : Bool := false
  isControlActive : Bool := false
  table : (kind : Kind) → PushTable kind := fun _ => {}
  pushedSignalNames : String → Bool := fun _ => false
  groupState : ℕ → S
  hardware : ℕ → H

/-- The topology and `m_iogroup_list`. -/
structure Platform (S H : Type) where
  topo : PlatformTopo
  iogroupList : List (IOGroup S H)

namespace PlatformIOImp

variable {S H : Type}

/-- A method of `PlatformIOImp`. -/
abbrev Method (S H : Type) := EStateM Exception (PlatformIOImp S H)

/-- A method of the IOGroup at the position `k`. -/
def onGroup {α : Type} (k : ℕ) (m : EStateM Exception S α) : Method S H α :=
  zoom (fun s => s.groupState k)
    (fun t s => { s with groupState := Function.update s.groupState k t }) m

/-- Change a table. -/
def setTable (kind : Kind) (f : PushTable kind → PushTable kind) (s : PlatformIOImp S H) :
    PlatformIOImp S H :=
  { s with table := Function.update s.table kind (f (s.table kind)) }

end PlatformIOImp

namespace Platform

open PlatformIOImp

variable {S H : Type} (p : Platform S H)

/-! ### The IOGroups of a name -/

/-- `is_valid_signal` and `is_valid_control`. -/
def isValid (kind : Kind) (name : String) (g : IOGroup S H) : Bool :=
  match kind with
  | .signal => g.isValidSignal name
  | .control => g.isValidControl name

/-- `signal_domain_type` and `control_domain_type` of an IOGroup. -/
def domainTypeOf (kind : Kind) (name : String) (g : IOGroup S H) : ℤ :=
  match kind with
  | .signal => g.signalDomainType name
  | .control => g.controlDomainType name

/-- `find_signal_iogroup` and `find_control_iogroup`: the last registered IOGroup comes first, and
determines the native domain. -/
def findIogroup (kind : Kind) (name : String) : List (IOGroup S H × ℕ) :=
  match p.iogroupList.zipIdx.reverse.filter fun g => isValid kind name g.1 with
  | [] => []
  | g :: rest =>
    g :: rest.filter fun g' => domainTypeOf kind name g'.1 = domainTypeOf kind name g.1

/-- `signal_domain_type` and `control_domain_type`, of a name that an IOGroup has. -/
def nativeDomain (kind : Kind) (name : String) : ℤ :=
  match p.findIogroup kind name with
  | [] => -1
  | g :: _ => domainTypeOf kind name g.1

def aggFunction (name : String) : Except Exception Agg :=
  match p.findIogroup .signal name with
  | [] => .error ⟨"PlatformIOImp::agg_function(): unknown signal \"" ++ name ++ "\"", [], .invalid⟩
  | g :: _ => .ok (g.1.aggFunction name)

/-- `is_control_adjust_same`, of a control that an IOGroup has. -/
def isControlAdjustSame (name : String) : Bool :=
  match p.findIogroup .control name with
  | [] => true
  | g :: _ => decide ((g.1.aggFunction name).type ≠ .sum)

/-- The checks that every method starts with. -/
def checkRange (method : String) (t : Request) : Except Exception Unit :=
  if t.domainType < 0 ∨ numDomainType ≤ t.domainType then
    .error ⟨"PlatformIOImp::" ++ method ++ "(): domain_type is out of range", [], .invalid⟩
  else if t.domainIdx < 0 ∨ p.topo.numDomain t.domainType ≤ t.domainIdx then
    .error ⟨"PlatformIOImp::" ++ method ++ "(): domain_idx is out of range", [], .invalid⟩
  else .ok ()

/-- The message of an exception, with the errors that were observed. -/
def withErrors (msg : String) (t : Request) (errs : List Exception) : Exception :=
  if errs = [] then ⟨msg, [t.domainType], .invalid⟩
  else ⟨msg ++ "\nThe following errors were observed:\n" ++
    String.join (errs.map fun e => e.what ++ "\n"),
    t.domainType :: errs.flatMap (·.values), .invalid⟩

/-! ### Pushing -/

/-- The name of a method, such as `push_signal`. -/
def methodName (verb : String) : Kind → String
  | .signal => verb ++ "_signal"
  | .control => verb ++ "_control"

/-- The error of a request that cannot be pushed. -/
def pushError (kind : Kind) (t : Request) (noSupport : Bool) (errs : List Exception) : Exception :=
  match kind, noSupport with
  | .signal, true => ⟨"PlatformIOImp::push_signal(): no support for signal name \"" ++ t.name ++
      "\" and domain type \"%\"", [t.domainType], .invalid⟩
  | .control, true => ⟨"PlatformIOImp::push_control(): no support for control name \"" ++ t.name ++
      "\" and domain type \"%\"", [t.domainType], .invalid⟩
  | .signal, false => withErrors ("PlatformIOImp::push_signal(): unable to read signal name \"" ++
      t.name ++ "\" and domain type \"%\"") t errs
  | .control, false => withErrors ("PlatformIOImp::push_control(): unable to push control name \"" ++
      t.name ++ "\" and domain type \"%\"") t errs

/-- What is raised keeps the IOGroup from being used, unless it does not implement the method. -/
def refusal (e : Exception) : Option Exception := if e.err = .notImplemented then none else some e

/-- The attempt to use a native signal or control of an IOGroup, before it is pushed: what keeps the
IOGroup from being used. -/
def probe (kind : Kind) (g : IOGroup S H) (k : ℕ) (t : Request) :
    Method S H (Option Exception) := do
  let s ← get
  match kind with
  | .signal =>
    -- A name that has been read before is not read again.
    if s.pushedSignalNames t.name then pure none
    else
      match g.readSignal t (s.hardware k) with
      | .ok _ => pure none
      | .error e => pure (refusal e)
  | .control =>
    match g.readSignal t (s.hardware k) with
    | .error e => pure (refusal e)
    | .ok val =>
      match g.writeControl t val (s.hardware k) with
      | .error e => pure (refusal e)
      | .ok h => do
        set { s with hardware := Function.update s.hardware k h }
        pure none

/-- `push_signal` and `push_control` of an IOGroup. -/
def groupPush (kind : Kind) (g : IOGroup S H) (t : Request) : EStateM Exception S ℤ :=
  match kind with
  | .signal => g.pushSignal t
  | .control => g.pushControl t

/-- Push a native signal or control to an IOGroup. -/
def pushNative (kind : Kind) (g : IOGroup S H) (k : ℕ) (t : Request) : Method S H ℤ := do
  let groupIdx ← onGroup k (groupPush kind g t)
  let s ← get
  let result : ℤ := (s.table kind).active.length
  set { s.setTable kind fun table => { table with
      existing := Function.update table.existing t (some result)
      active := table.active ++ [(some k, groupIdx)] } with
    pushedSignalNames :=
      if kind = Kind.signal then Function.update s.pushedSignalNames t.name true
      else s.pushedSignalNames }
  pure result

/-- The combiner of `n` signals or controls. -/
def combiner (name : String) (n : ℕ) : (kind : Kind) → Except Exception (Combiner kind)
  | .signal => p.aggFunction name
  | .control => .ok (if n ≠ 0 ∧ ¬ p.isControlAdjustSame name then 1 / (n : ℚ) else (1 : ℚ))

/-- `push_combined_signal` and `push_combined_control`. -/
def pushCombined (kind : Kind) (name : String) (subIdx : List ℤ) : Method S H ℤ := do
  let result : ℤ := ((← get).table kind).active.length
  let c ← ret (p.combiner name subIdx.length kind)
  modify (setTable kind fun table => { table with
    combined := Function.update table.combined result (some (subIdx, c))
    active := table.active ++ [(none, result)] })
  pure result

/-- Push requests one after the other. -/
def pushAll (push : Request → Method S H ℤ) : List Request → Method S H (List ℤ)
  | [] => pure []
  | t :: ts => do
    let i ← push t
    let is ← pushAll push ts
    pure (i :: is)

/-- The requests at the native domain that are nested in a request. -/
def nested (kind : Kind) (t : Request) : List Request :=
  (p.topo.domainNested (p.nativeDomain kind t.name) t.domainType t.domainIdx).map
    fun idx => ⟨t.name, p.nativeDomain kind t.name, idx⟩

/-- `push_signal_convert_domain` and `push_control_convert_domain`. -/
def pushConvertDomain (kind : Kind) (push : Request → Method S H ℤ) (t : Request) :
    Method S H ℤ :=
  if p.topo.isNestedDomain (p.nativeDomain kind t.name) t.domainType then do
    let subIdx ← pushAll push (p.nested kind t)
    p.pushCombined kind t.name subIdx
  else pure (-1)

/-- The loop of `push_signal` and `push_control` over the IOGroups of the name. -/
def pushLoop (kind : Kind) (push : Request → Method S H ℤ) (t : Request) :
    List (IOGroup S H × ℕ) → List Exception → Method S H (ℤ × List Exception)
  | [], errs => pure (-1, errs)
  | g :: rest, errs =>
    if t.domainType = domainTypeOf kind t.name g.1 then do
      match ← probe kind g.1 g.2 t with
      | some e => pushLoop kind push t rest (errs ++ [e])
      | none => do
        let result ← pushNative kind g.1 g.2 t
        pure (result, errs)
    else do
      let result ← p.pushConvertDomain kind push t
      modify (setTable kind fun table =>
        { table with existing := Function.update table.existing t (some result) })
      if result ≠ -1 then pure (result, errs) else pushLoop kind push t rest errs

/-- The part of `push_signal` and `push_control` for a request that has not been pushed. -/
def pushNew (kind : Kind) (push : Request → Method S H ℤ) (t : Request) : Method S H ℤ := do
  let s ← get
  if s.isSignalActive ∨ s.isControlActive then
    throw ⟨"PlatformIOImp::" ++ methodName "push" kind ++ "(): pushing " ++
      (if kind = .signal then "signals" else "controls") ++ " after read_batch() or adjust().", [],
      .invalid⟩
  else do
    let noSupport := ((s.table kind).existing t).isNone && (p.findIogroup kind t.name).isEmpty
    let result ← p.pushLoop kind push t (p.findIogroup kind t.name) []
    if result.1 = -1 then throw (pushError kind t noSupport result.2) else pure result.1

/-- The body of `push_signal` and `push_control`, which call `push`. -/
def pushWith (kind : Kind) (push : Request → Method S H ℤ) (t : Request) : Method S H ℤ := do
  ret (p.checkRange (methodName "push" kind) t)
  let s ← get
  let result := ((s.table kind).existing t).getD (-1)
  if result ≠ -1 then pure result else p.pushNew kind push t

/-- `push_signal` and `push_control`. -/
def push (kind : Kind) : Request → Method S H ℤ :=
  p.pushWith kind (p.pushWith kind fun _ => throw ⟨"unreachable", [], .logic⟩)

def pushSignal (t : Request) : Method S H ℤ := p.push .signal t

def pushControl (t : Request) : Method S H ℤ := p.push .control t

/-! ### Signals -/

def readBatch (s : PlatformIOImp S H) : PlatformIOImp S H :=
  { s with
    groupState := fun k =>
      match p.iogroupList[k]? with
      | some g => g.readBatch (s.hardware k) (s.groupState k)
      | none => s.groupState k
    isSignalActive := true }

/-- `sample` of what the combined signals are made of, down to a depth. -/
def sampleFrom (s : PlatformIOImp S H) : ℕ → ℤ → Except Exception Value
  | 0, _ => .error ⟨"unreachable", [], .logic⟩
  | depth + 1, signalIdx =>
    if signalIdx < 0 ∨ (s.table .signal).active.length ≤ signalIdx then
      .error ⟨"PlatformIOImp::sample(): signal_idx out of range", [], .invalid⟩
    else if ¬ s.isSignalActive then
      .error ⟨"PlatformIOImp::sample(): read_batch() not called prior to call to sample()", [],
        .runtime⟩
    else
      match (s.table .signal).active[signalIdx.toNat]? with
      | some (some k, groupIdx) =>
        match p.iogroupList[k]? with
        | some g => g.sample groupIdx (s.groupState k)
        | none => .error ⟨"unreachable", [], .logic⟩
      | some (none, idx) =>
        match (s.table .signal).combined idx with
        | some (operandIdx, agg) => do
          let operands ← operandIdx.mapM (sampleFrom s depth)
          pure (Agg.apply agg operands)
        | none => .error ⟨"map::at", [], .logic⟩
      | none => .error ⟨"unreachable", [], .logic⟩

/-- `sample`. -/
def sample (s : PlatformIOImp S H) (signalIdx : ℤ) : Except Exception Value :=
  p.sampleFrom s ((s.table .signal).active.length + 1) signalIdx

/-- `read_signal_convert_domain`. -/
def readConvertDomain (read : Request → Except Exception Value) (t : Request) :
    Except Exception Value :=
  if p.topo.isNestedDomain (p.nativeDomain .signal t.name) t.domainType then do
    let values ← (p.nested .signal t).mapM read
    let agg ← p.aggFunction t.name
    pure (agg.apply values)
  else
    .error ⟨"PlatformIOImp::read_signal(): domain % is not valid for signal \"" ++ t.name ++ "\"",
      [t.domainType], .invalid⟩

/-- The loop of `read_signal` over the IOGroups of the name. -/
def readLoop (read : Request → Except Exception Value) (hardware : ℕ → H) (t : Request) :
    List (IOGroup S H × ℕ) → List Exception → Except Exception Value
  | [], errs => .error (withErrors ("PlatformIOImp::read_signal(): unable to read signal name \"" ++
      t.name ++ "\" and domain type \"%\"") t errs)
  | g :: rest, errs =>
    if domainTypeOf .signal t.name g.1 ≠ t.domainType then p.readConvertDomain read t
    else
      match g.1.readSignal t (hardware g.2) with
      | .ok v => .ok v
      | .error e => readLoop read hardware t rest (errs ++ [e])

/-- The body of `read_signal`, which calls `read`. -/
def readSignalWith (hardware : ℕ → H) (read : Request → Except Exception Value) (t : Request) :
    Except Exception Value := do
  p.checkRange "read_signal" t
  if p.findIogroup .signal t.name = [] then
    .error ⟨"PlatformIOImp::read_signal(): signal name \"" ++ t.name ++ "\" not found", [],
      .invalid⟩
  else p.readLoop read hardware t (p.findIogroup .signal t.name) []

/-- `read_signal`, in a state of the hardware. -/
def readSignal (hardware : ℕ → H) : Request → Except Exception Value :=
  p.readSignalWith hardware (p.readSignalWith hardware fun _ => .error ⟨"unreachable", [], .logic⟩)

/-! ### Controls -/

/-- `CombinedControl::adjust`. -/
def scale (factor : ℚ) (setting : Value) : Value := setting.map fun v => factor * v

/-- `adjust` of what the combined controls are made of, down to a depth. -/
def adjustFrom : ℕ → ℤ → Value → Method S H Unit
  | 0, _, _ => throw ⟨"unreachable", [], .logic⟩
  | depth + 1, controlIdx, setting => do
    let s ← get
    if controlIdx < 0 ∨ (s.table .control).active.length ≤ controlIdx then
      throw ⟨"PlatformIOImp::adjust(): control_idx out of range", [], .invalid⟩
    else if setting = none then
      throw ⟨"PlatformIOImp::adjust(): setting is NAN", [], .invalid⟩
    else do
      match (s.table .control).active[controlIdx.toNat]? with
      | some (some k, groupIdx) =>
        match p.iogroupList[k]? with
        | some g => onGroup k (g.adjust groupIdx setting)
        | none => throw ⟨"unreachable", [], .logic⟩
      | some (none, _) =>
        match (s.table .control).combined controlIdx with
        | some (operandIdx, factor) =>
          operandIdx.forM fun op => adjustFrom depth op (scale factor setting)
        | none => throw ⟨"map::at", [], .logic⟩
      | none => throw ⟨"unreachable", [], .logic⟩
      modify fun s => { s with isControlActive := true }

/-- `adjust`. -/
def adjust (controlIdx : ℤ) (setting : Value) : Method S H Unit := do
  p.adjustFrom (((← get).table .control).active.length + 1) controlIdx setting

def writeBatch (s : PlatformIOImp S H) : PlatformIOImp S H :=
  { s with
    hardware := fun k =>
      match p.iogroupList[k]? with
      | some g => g.writeBatch (s.groupState k) (s.hardware k)
      | none => s.hardware k }

/-- `write_control_convert_domain`. -/
def writeConvertDomain (write : Request → Value → EStateM Exception (ℕ → H) Unit) (t : Request)
    (setting : Value) : EStateM Exception (ℕ → H) Unit :=
  if p.topo.isNestedDomain (p.nativeDomain .control t.name) t.domainType then
    let ts := p.nested .control t
    let setting :=
      if ts ≠ [] ∧ ¬ p.isControlAdjustSame t.name then setting.map fun v => v / (ts.length : ℚ)
      else setting
    ts.forM fun t => write t setting
  else
    throw ⟨"PlatformIOImp::write_control(): domain % is not valid for control \"" ++ t.name ++ "\"",
      [t.domainType], .invalid⟩

/-- The loop of `write_control` over the IOGroups of the name. -/
def writeLoop (write : Request → Value → EStateM Exception (ℕ → H) Unit) (t : Request)
    (setting : Value) :
    List (IOGroup S H × ℕ) → List Exception → EStateM Exception (ℕ → H) Unit
  | [], errs => throw (withErrors ("PlatformIOImp::write_control(): unable to write control name \"" ++
      t.name ++ "\" and domain type \"%\"") t errs)
  | g :: rest, errs =>
    if domainTypeOf .control t.name g.1 ≠ t.domainType then p.writeConvertDomain write t setting
    else do
      let hardware ← get
      match g.1.writeControl t setting (hardware g.2) with
      | .ok h => set (Function.update hardware g.2 h)
      | .error e => writeLoop write t setting rest (errs ++ [e])

/-- The body of `write_control`, which calls `write`. -/
def writeControlWith (write : Request → Value → EStateM Exception (ℕ → H) Unit) (t : Request)
    (setting : Value) : EStateM Exception (ℕ → H) Unit := do
  ret (p.checkRange "write_control" t)
  if p.findIogroup .control t.name = [] then
    throw ⟨"PlatformIOImp::write_control(): control name \"" ++ t.name ++ "\" not found", [],
      .invalid⟩
  else p.writeLoop write t setting (p.findIogroup .control t.name) []

/-- `write_control`, on the hardware. -/
def writeControl : Request → Value → EStateM Exception (ℕ → H) Unit :=
  p.writeControlWith (p.writeControlWith fun _ _ => throw ⟨"unreachable", [], .logic⟩)

/-! ### The calls of the methods to themselves -/

section Recursion

variable {p} {kind : Kind} {name : String} {t : Request} {g : IOGroup S H × ℕ}

theorem mem_findIogroup (hg : g ∈ p.findIogroup kind name) :
    p.iogroupList[g.2]? = some g.1 ∧ isValid kind name g.1 = true ∧
      domainTypeOf kind name g.1 = p.nativeDomain kind name := by
  unfold nativeDomain
  unfold findIogroup at *
  have hmem : ∀ g', g' ∈ p.iogroupList.zipIdx.reverse.filter (fun g => isValid kind name g.1) →
      p.iogroupList[g'.2]? = some g'.1 ∧ isValid kind name g'.1 = true := by
    intro g' hg'
    obtain ⟨hzip, hvalid⟩ := mem_filter.mp hg'
    exact ⟨mem_zipIdx_iff_getElem?.mp (mem_reverse.mp hzip), hvalid⟩
  split at hg
  · cases hg
  · rename_i first rest hfirst
    rw [hfirst] at hmem
    obtain rfl | hg := mem_cons.mp hg
    · obtain ⟨hget, hvalid⟩ := hmem _ mem_cons_self
      exact ⟨hget, hvalid, rfl⟩
    · obtain ⟨hrest, hdomain⟩ := mem_filter.mp hg
      obtain ⟨hget, hvalid⟩ := hmem g (mem_cons_of_mem _ hrest)
      exact ⟨hget, hvalid, of_decide_eq_true hdomain⟩

/-- The requests that are nested in a request are at the native domain. -/
theorem mem_nested {u : Request} (hu : u ∈ p.nested kind t) :
    u.name = t.name ∧ u.domainType = p.nativeDomain kind u.name := by
  obtain ⟨idx, -, rfl⟩ := mem_map.mp hu
  exact ⟨rfl, rfl⟩

variable {push push' : Request → Method S H ℤ}

theorem pushAll_congr {ts : List Request}
    (h : ∀ u ∈ ts, push u = push' u) : pushAll push ts = pushAll push' ts := by
  induction ts with
  | nil => rfl
  | cons u us ih =>
    rw [pushAll, pushAll, h u mem_cons_self, ih fun v hv => h v (mem_cons_of_mem _ hv)]

variable {gs : List (IOGroup S H × ℕ)}

theorem pushLoop_congr
    (h : (∃ g ∈ gs, t.domainType ≠ domainTypeOf kind t.name g.1) →
      ∀ u ∈ p.nested kind t, push u = push' u) (errs : List Exception) :
    p.pushLoop kind push t gs errs = p.pushLoop kind push' t gs errs := by
  induction gs generalizing errs with
  | nil => rfl
  | cons g gs ih =>
    have ih := ih fun ⟨g', hg', hne⟩ => h ⟨g', mem_cons_of_mem _ hg', hne⟩
    rw [pushLoop, pushLoop]
    split_ifs with hg
    · congr 1
      funext r
      cases r with
      | none => rfl
      | some e => exact ih _
    · have hconvert : p.pushConvertDomain kind push t = p.pushConvertDomain kind push' t := by
        rw [pushConvertDomain, pushConvertDomain,
          pushAll_congr (h ⟨g, mem_cons_self, hg⟩)]
      rw [hconvert]
      congr 1
      funext r
      congr 1
      funext _
      split_ifs
      · rfl
      · exact ih _

theorem pushWith_congr
    (h : t.domainType ≠ p.nativeDomain kind t.name → ∀ u ∈ p.nested kind t, push u = push' u) :
    p.pushWith kind push t = p.pushWith kind push' t := by
  have hloop : p.pushLoop kind push t (p.findIogroup kind t.name) [] = _ :=
    pushLoop_congr (fun ⟨g, hg, hne⟩ => h ((mem_findIogroup hg).2.2 ▸ hne)) []
  unfold pushWith pushNew
  rw [hloop]

/-- At the native domain, `push_signal` and `push_control` do not call themselves. -/
theorem pushWith_native
    (ht : t.domainType = p.nativeDomain kind t.name) :
    p.pushWith kind push t = p.pushWith kind push' t :=
  pushWith_congr fun hne => absurd ht hne

/-- `push_signal` and `push_control` call themselves. -/
theorem push_eq (p : Platform S H) (kind : Kind) (t : Request) :
    p.push kind t = p.pushWith kind (p.push kind) t :=
  pushWith_congr fun _ _ hu => pushWith_native (mem_nested hu).2

theorem readLoop_congr {read read' : Request → Except Exception Value} {hardware : ℕ → H}
    (h : (∃ g ∈ gs, domainTypeOf .signal t.name g.1 ≠ t.domainType) →
      ∀ u ∈ p.nested .signal t, read u = read' u) (errs : List Exception) :
    p.readLoop read hardware t gs errs = p.readLoop read' hardware t gs errs := by
  induction gs generalizing errs with
  | nil => rfl
  | cons g gs ih =>
    have ih := ih fun ⟨g', hg', hne⟩ => h ⟨g', mem_cons_of_mem _ hg', hne⟩
    rw [readLoop, readLoop]
    split_ifs with hg
    · rw [readConvertDomain, readConvertDomain,
        mapM_congr (h ⟨g, mem_cons_self, hg⟩)]
    · cases g.1.readSignal t (hardware g.2) with
      | ok v => rfl
      | error e => exact ih _

theorem readSignalWith_congr {read read' : Request → Except Exception Value} {hardware : ℕ → H}
    (h : t.domainType ≠ p.nativeDomain .signal t.name →
      ∀ u ∈ p.nested .signal t, read u = read' u) :
    p.readSignalWith hardware read t = p.readSignalWith hardware read' t := by
  have hloop : p.readLoop read hardware t (p.findIogroup .signal t.name) [] = _ :=
    readLoop_congr (fun ⟨g, hg, hne⟩ => h ((mem_findIogroup hg).2.2 ▸ hne.symm)) []
  unfold readSignalWith
  rw [hloop]

/-- `read_signal` calls itself. -/
theorem readSignal_eq (p : Platform S H) (hardware : ℕ → H) (t : Request) :
    p.readSignal hardware t = p.readSignalWith hardware (p.readSignal hardware) t :=
  readSignalWith_congr fun _ _ hu => readSignalWith_congr fun hne => absurd (mem_nested hu).2 hne

theorem writeLoop_congr {write write' : Request → Value → EStateM Exception (ℕ → H) Unit}
    {setting : Value}
    (h : (∃ g ∈ gs, domainTypeOf .control t.name g.1 ≠ t.domainType) →
      ∀ u ∈ p.nested .control t, write u = write' u) (errs : List Exception) :
    p.writeLoop write t setting gs errs = p.writeLoop write' t setting gs errs := by
  induction gs generalizing errs with
  | nil => rfl
  | cons g gs ih =>
    have ih := ih fun ⟨g', hg', hne⟩ => h ⟨g', mem_cons_of_mem _ hg', hne⟩
    rw [writeLoop, writeLoop]
    split_ifs with hg
    · have hforM : ∀ v, (p.nested .control t).forM (fun u => write u v) =
          (p.nested .control t).forM fun u => write' u v :=
        fun v => forM_congr fun u hu => by rw [h ⟨g, mem_cons_self, hg⟩ u hu]
      unfold writeConvertDomain
      simp only [hforM]
    · congr 1
      funext hardware
      cases g.1.writeControl t setting (hardware g.2) with
      | ok v => rfl
      | error e => exact ih _

theorem writeControlWith_congr {write write' : Request → Value → EStateM Exception (ℕ → H) Unit}
    (h : t.domainType ≠ p.nativeDomain .control t.name →
      ∀ u ∈ p.nested .control t, write u = write' u) (setting : Value) :
    p.writeControlWith write t setting = p.writeControlWith write' t setting := by
  have hloop : p.writeLoop write t setting (p.findIogroup .control t.name) [] = _ :=
    writeLoop_congr (fun ⟨g, hg, hne⟩ => h ((mem_findIogroup hg).2.2 ▸ hne.symm)) []
  unfold writeControlWith
  rw [hloop]

/-- `write_control` calls itself. -/
theorem writeControl_eq (p : Platform S H) (t : Request) (setting : Value) :
    p.writeControl t setting = p.writeControlWith p.writeControl t setting :=
  writeControlWith_congr (fun _ _ hu => funext fun _ =>
    writeControlWith_congr (fun hne => absurd (mem_nested hu).2 hne) _) _

end Recursion

end Platform

end Geopm.Pio
