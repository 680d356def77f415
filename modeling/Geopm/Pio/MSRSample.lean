import Geopm.Pio.MSRIO

/-!
# Samples of `MSRIO`

`MSRIOImp::sample` reads the array of operations that the last `read_batch` of its context was given
through a pointer, if a flag of the context says that a batch has been read.

* `Context`, `MSRIOImp` : a batch context, with the memory that its operations are in, and the
  object with all of its contexts;
* `addRead`, `readBatch`, `sample` : the methods; those that write are run on a part of the object;
* `MSRIOImp.SampleRight` : the call throws, or returns what has last been read for the index;
* `Calm` : a call that leaves the flag and the pointer right;
* `wp_readContext` : what a batch that is read does to its context;
* `next_some` : what a call does to its context, and that it leaves the others as they are.
-/

namespace Geopm.Pio.MSRSample

open Prog (zoom ret final returns wp wp_bind wp_modify wp_get wp_ite wp_pure wp_mono final_zoom)

/-- `m_msr_batch_array_s`; the pointer is the allocation that it points to. -/
structure BatchArray where
  numops : ℕ := 0
  ops : Option ℕ := none

/-- `m_batch_context_s`.  The read operations are in an allocation, with room for `capacity` of
them.  What the last `read_batch` that succeeded has read is history. -/
structure Context where
  writes : MSRIO
  readBatch : BatchArray := {}
  readBatchOp : List BatchOp := []
  capacity : ℕ := 0
  allocation : ℕ := 0
  lastRead : Option (List (BitVec 64)) := none

/-- The object, and the registers. -/
structure MSRIOImp where
  numCpu : ℕ
  isBatchEnabled : Bool
  offsetMaskMap : BitVec 64 → Option (BitVec 64)
  registers : Registers
  batchContext : List Context

/-- What a call of `sample` comes to; a read through a bad pointer may come to anything. -/
inductive Sampled where
  | throws (ex : Exception)
  | value (raw : BitVec 64)
  | undefined

namespace MSRIOImp

/-- `m_batch_context.at`. -/
def context? (s : MSRIOImp) (batchCtx : ℤ) : Option Context :=
  if batchCtx < 0 then none else s.batchContext[batchCtx.toNat]?

/-- A context is changed. -/
def setContext (s : MSRIOImp) (batchCtx : ℤ) (ctx : Context) : MSRIOImp :=
  { s with batchContext := s.batchContext.set batchCtx.toNat ctx }

/-- What the methods that write use: the members for one context, and the registers. -/
def machine (s : MSRIOImp) (ctx : Context) : Machine where
  msrio := { ctx.writes with
    numCpu := s.numCpu
    isBatchEnabled := s.isBatchEnabled
    offsetMaskMap := s.offsetMaskMap }
  registers := s.registers

/-- The object after a method that writes. -/
def withMachine (batchCtx : ℤ) (ctx : Context) (m : Machine) (s : MSRIOImp) : MSRIOImp :=
  { s.setContext batchCtx { ctx with writes := m.msrio } with
    offsetMaskMap := m.msrio.offsetMaskMap
    registers := m.registers }

end MSRIOImp

/-! ### The methods -/

/-- A method on a context that is there. -/
def onContext {α : Type} (batchCtx : ℤ) (method : Context → EStateM Exception MSRIOImp α) :
    EStateM Exception MSRIOImp α := do
  let s ← get
  match s.context? batchCtx with
  | none => throw ⟨"vector::at", [], .runtime⟩
  | some ctx => method ctx

def createBatchContext : EStateM Exception MSRIOImp ℕ := do
  let s ← get
  set (σ := MSRIOImp) { s with
    batchContext := s.batchContext ++
      [{ writes := { numCpu := s.numCpu, isBatchEnabled := s.isBatchEnabled } }] }
  pure s.batchContext.length

/-- `sample`, with a context. -/
def Context.sample (ctx : Context) (batchIdx : ℤ) : Sampled :=
  if ctx.writes.isBatchRead = false then
    .throws ⟨"MSRIOImp::sample(): cannot call sample() before read_batch().", [], .invalid⟩
  else if ctx.readBatch.ops ≠ some ctx.allocation ∨ batchIdx < 0 then .undefined
  else
    match ctx.readBatchOp[batchIdx.toNat]? with
    | none => .undefined
    | some op => .value op.msrdata

/-- `sample`. -/
def MSRIOImp.sample (s : MSRIOImp) (batchIdx batchCtx : ℤ) : Sampled :=
  match s.context? batchCtx with
  | none => .throws ⟨"vector::at", [], .runtime⟩
  | some ctx => ctx.sample batchIdx

section Methods

-- the write mask that the driver has for an offset, and the next capacity of a vector
variable (driverMask : BitVec 32 → BitVec 64) (grow : ℕ → ℕ)

/-- `vector::push_back`: without room for another operation, they move. -/
def Context.pushBack (ctx : Context) (op : BatchOp) : Context :=
  if ctx.readBatchOp.length < ctx.capacity then
    { ctx with readBatchOp := ctx.readBatchOp ++ [op] }
  else
    { ctx with
      readBatchOp := ctx.readBatchOp ++ [op]
      capacity := grow ctx.capacity
      allocation := ctx.allocation + 1 }

def addRead (cpuIdx : ℤ) (offset : BitVec 64) (batchCtx : ℤ) : EStateM Exception MSRIOImp ℕ :=
  onContext batchCtx fun ctx => do
    let rd : BatchOp := ⟨BitVec.ofInt 16 cpuIdx, true, 0, offset.setWidth 32, 0, 0⟩
    modify fun s => s.setContext batchCtx (ctx.pushBack grow rd)
    pure ctx.readBatchOp.length

def addWrite (cpuIdx : ℤ) (offset : BitVec 64) (reads : Bool) (batchCtx : ℤ) :
    EStateM Exception MSRIOImp ℕ :=
  onContext batchCtx fun ctx =>
    zoom (·.machine ctx) (MSRIOImp.withMachine batchCtx ctx)
      (Machine.addWrite driverMask cpuIdx offset reads)

/-- `adjust`. -/
def adjust (batchIdx : ℤ) (rawValue writeMask : BitVec 64) (batchCtx : ℤ) :
    EStateM Exception MSRIOImp Unit :=
  onContext batchCtx fun ctx =>
    zoom (·.machine ctx) (MSRIOImp.withMachine batchCtx ctx)
      (Machine.adjust batchIdx rawValue writeMask)

def writeBatch (batchCtx : ℤ) (first second : Outcome) : EStateM Exception MSRIOImp Unit :=
  onContext batchCtx fun ctx =>
    zoom (·.machine ctx) (MSRIOImp.withMachine batchCtx ctx)
      (Machine.writeBatch driverMask first second)

/-- The read operations are run. -/
def runReads (isBatchEnabled : Bool) (o : Outcome) (registers : Registers) (ctx : Context) :
    Context :=
  { ctx with readBatchOp := (Machine.runOps driverMask isBatchEnabled o registers
      ctx.readBatchOp).2 }

/-- `msr_ioctl_read`, with `msr_ioctl`. -/
def msrIoctlRead (o : Outcome) (registers : Registers) : EStateM Exception Context Unit := do
  let ctx ← get
  if ctx.readBatch.numops = 0 then pure ()
  else do
    modify (runReads driverMask true o registers)
    let ctx ← get
    if o.ret = -1 then
      throw ⟨"MSRIOImp::msr_ioctl(): call to ioctl() for /dev/cpu/msr_batch failed:  system error: ",
        [], .msrRead⟩
    else
      match ctx.readBatchOp.find? (·.err ≠ 0) with
      | some op => throw ⟨"MSRIOImp::msr_ioctl(): operation failed at offset 0x% system error: %",
          [op.msr.toNat, op.err], .msrWrite⟩
      | none => pure ()

/-- `msr_read_files`, with `msr_batch_io`: the cpus of all operations are checked first. -/
def msrReadFiles (numCpu : ℕ) (o : Outcome) (registers : Registers) :
    EStateM Exception Context Unit := do
  let ctx ← get
  if ctx.readBatch.numops = 0 then pure ()
  else do
    ctx.readBatchOp.forM fun op => ret (msrDesc numCpu op.cpu.toNat)
    modify (runReads driverMask false o registers)
    let ctx ← get
    if o.ret = -1 then
      throw ⟨"Failed to get a completion event from IO uring", [], .runtime⟩
    else
      match ctx.readBatchOp.find? (·.err ≠ 0) with
      | some op => throw ⟨"MSRIOImp::msr_batch_io(): failed at offset 0x% system error: %",
          [op.msr.toNat, op.err], if op.isrdmsr then .msrRead else .msrWrite⟩
      | none => pure ()

/-- The array is the one of the vector. -/
def Context.refresh (ctx : Context) : Context :=
  { ctx with readBatch := ⟨ctx.readBatchOp.length, some ctx.allocation⟩ }

/-- The flag is set, and what the registers hold has been read. -/
def Context.finish (registers : Registers) (ctx : Context) : Context :=
  { ctx with
    writes := { ctx.writes with isBatchRead := true }
    lastRead := some (ctx.readBatchOp.map fun op => registers op.address) }

/-- `read_batch`, on its context. -/
def readContext (s : MSRIOImp) (o : Outcome) : EStateM Exception Context Unit := do
  modify Context.refresh
  (if s.isBatchEnabled then msrIoctlRead driverMask o s.registers
    else msrReadFiles driverMask s.numCpu o s.registers)
  modify (Context.finish s.registers)

def readBatch (batchCtx : ℤ) (o : Outcome) : EStateM Exception MSRIOImp Unit :=
  onContext batchCtx fun ctx => do
    let s ← get
    zoom (fun _ => ctx) (fun ctx s => s.setContext batchCtx ctx) (readContext driverMask s o)

end Methods

/-! ### Runs -/

/-- What happens: the calls, with what the driver makes of them, and what others write. -/
inductive Call where
  | createBatchContext
  | addRead (cpuIdx : ℤ) (offset : BitVec 64) (batchCtx : ℤ)
  | addWrite (cpuIdx : ℤ) (offset : BitVec 64) (reads : Bool) (batchCtx : ℤ)
  | adjust (batchIdx : ℤ) (rawValue writeMask : BitVec 64) (batchCtx : ℤ)
  | readBatch (batchCtx : ℤ) (o : Outcome)
  | writeBatch (batchCtx : ℤ) (first second : Outcome)
  | others (registers : Registers)

section Runs

variable (driverMask : BitVec 32 → BitVec 64) (grow : ℕ → ℕ)

/-- The state after a call. -/
def next (s : MSRIOImp) : Call → MSRIOImp
  | .createBatchContext => final createBatchContext s
  | .addRead cpuIdx offset batchCtx => final (addRead grow cpuIdx offset batchCtx) s
  | .addWrite cpuIdx offset reads batchCtx =>
    final (addWrite driverMask cpuIdx offset reads batchCtx) s
  | .adjust batchIdx rawValue writeMask batchCtx =>
    final (adjust batchIdx rawValue writeMask batchCtx) s
  | .readBatch batchCtx o => final (readBatch driverMask batchCtx o) s
  | .writeBatch batchCtx first second => final (writeBatch driverMask batchCtx first second) s
  | .others registers => { s with registers := registers }

/-- A new object has one context. -/
def start (numCpu : ℕ) (isBatchEnabled : Bool) (registers : Registers) : MSRIOImp where
  numCpu := numCpu
  isBatchEnabled := isBatchEnabled
  offsetMaskMap := fun _ => none
  registers := registers
  batchContext := [{ writes := { numCpu := numCpu, isBatchEnabled := isBatchEnabled } }]

/-- A sample is right when the call throws, or when it returns what the last `read_batch` that
succeeded has read for the index. -/
def Context.Right (ctx : Context) (batchIdx : ℤ) : Prop :=
  match ctx.sample batchIdx with
  | .throws _ => True
  | .value raw => ∃ values, ctx.lastRead = some values ∧ values[batchIdx.toNat]? = some raw
  | .undefined => False

/-- The index of a read that has been added. -/
def Context.Added (ctx : Context) (batchIdx : ℤ) : Prop :=
  0 ≤ batchIdx ∧ batchIdx.toNat < ctx.readBatchOp.length

/-- All samples of a context are right, of all indices that have been added, and of any index before
a batch has been read. -/
def Context.AllRight (ctx : Context) : Prop :=
  ∀ batchIdx, ctx.Added batchIdx ∨ ctx.lastRead = none → ctx.Right batchIdx

/-- A sample is right. -/
def MSRIOImp.SampleRight (s : MSRIOImp) (batchIdx batchCtx : ℤ) : Prop :=
  match s.sample batchIdx batchCtx with
  | .throws _ => True
  | .value raw => ∃ ctx values, s.context? batchCtx = some ctx ∧ ctx.lastRead = some values ∧
      values[batchIdx.toNat]? = some raw
  | .undefined => False

/-- A sample of an index that has been added, or from a context that has not been read. -/
def MSRIOImp.Asked (s : MSRIOImp) (batchIdx batchCtx : ℤ) : Prop :=
  ∀ ctx, s.context? batchCtx = some ctx → ctx.Added batchIdx ∨ ctx.lastRead = none

/-- A call is calm when it does not add a read to a context that has been read, does not read
another value into such a context and then fail, and does not write a context that has not been
read. -/
def Calm (s : MSRIOImp) : Call → Prop
  | .addRead _ _ batchCtx => ∀ ctx, s.context? batchCtx = some ctx → ctx.lastRead = none
  | .readBatch batchCtx o =>
    ∀ ctx, s.context? batchCtx = some ctx → ctx.lastRead ≠ none →
      returns (readBatch driverMask batchCtx o) s = true ∨
        ∀ op ∈ ctx.readBatchOp, o.performed op = true → s.registers op.address = op.msrdata
  | .writeBatch batchCtx first second =>
    ∀ ctx, s.context? batchCtx = some ctx → ctx.lastRead = none →
      returns (writeBatch driverMask batchCtx first second) s = false
  | _ => True

variable {driverMask : BitVec 32 → BitVec 64} {grow : ℕ → ℕ} {s : MSRIOImp} {ctx : Context}

/-! ### The operations that are read -/

/-- An operation that reads. -/
def readOp (o : Outcome) (registers : Registers) (op : BatchOp) : BatchOp :=
  if o.performed op then { op with err := o.err op, msrdata := registers op.address }
  else { op with err := o.err op }

theorem runOps_reads {isBatchEnabled : Bool} {o : Outcome} {registers : Registers}
    {ops : List BatchOp} (h : ∀ op ∈ ops, op.isrdmsr = true) :
    Machine.runOps driverMask isBatchEnabled o registers ops =
      (registers, ops.map (readOp o registers)) := by
  induction ops with
  | nil => rfl
  | cons op ops ih =>
    have hop : Machine.runOp driverMask isBatchEnabled o registers op =
        (registers, readOp o registers op) := by
      unfold Machine.runOp readOp
      cases o.performed op <;> simp [h op List.mem_cons_self]
    unfold Machine.runOps
    rw [hop]
    dsimp only
    rw [ih fun op' hop' => h op' (List.mem_cons_of_mem op hop')]
    rfl

variable (o : Outcome)

@[simp] theorem readOp_isrdmsr (registers : Registers) (op : BatchOp) :
    (readOp o registers op).isrdmsr = op.isrdmsr := by
  unfold readOp
  split_ifs <;> rfl

@[simp] theorem readOp_cpu (registers : Registers) (op : BatchOp) :
    (readOp o registers op).cpu = op.cpu := by
  unfold readOp
  split_ifs <;> rfl

@[simp] theorem readOp_address (registers : Registers) (op : BatchOp) :
    (readOp o registers op).address = op.address := by
  unfold readOp
  split_ifs <;> rfl

@[simp] theorem readOp_err (registers : Registers) (op : BatchOp) :
    (readOp o registers op).err = o.err op := by
  unfold readOp
  split_ifs <;> rfl

/-- An operation without an error holds what the register holds. -/
theorem readOp_msrdata {o : Outcome} {registers : Registers} {op : BatchOp} (h : o.err op = 0) :
    (readOp o registers op).msrdata = registers op.address := by
  unfold readOp
  rw [if_pos (o.performs op h)]

/-! ### Batches -/

/-- The context after its operations have been run. -/
def afterReads (o : Outcome) (registers : Registers) (ctx : Context) : Context :=
  { ctx.refresh with readBatchOp := ctx.readBatchOp.map (readOp o registers) }

/-- The operations are run, and their errors are looked at. -/
theorem wp_runReads (ctx : Context) (hreads : ∀ op ∈ ctx.readBatchOp, op.isrdmsr = true)
    (isBatchEnabled : Bool)
    (o : Outcome) (registers : Registers) (refused : Exception) (failed : BatchOp → Exception) :
    wp (do
        modify (runReads driverMask isBatchEnabled o registers)
        let ctx ← get
        if o.ret = -1 then throw refused
        else
          match ctx.readBatchOp.find? (·.err ≠ 0) with
          | some op => throw (failed op)
          | none => pure () : EStateM Exception Context Unit)
      (fun _ ctx' => ctx' = { ctx with readBatchOp := ctx.readBatchOp.map (readOp o registers) } ∧
        ∀ op ∈ ctx.readBatchOp, o.err op = 0)
      (fun _ ctx' => ctx' = { ctx with readBatchOp := ctx.readBatchOp.map (readOp o registers) })
      ctx := by
  have hrun : runReads driverMask isBatchEnabled o registers ctx =
      { ctx with readBatchOp := ctx.readBatchOp.map (readOp o registers) } := by
    unfold runReads
    rw [runOps_reads hreads]
  rw [wp_bind, wp_modify, hrun, wp_bind, wp_get, wp_ite]
  refine ⟨fun _ => rfl, fun _ => ?_⟩
  cases hfind : (ctx.readBatchOp.map (readOp o registers)).find? (·.err ≠ 0) with
  | some op => exact rfl
  | none =>
    refine ⟨rfl, fun op hop => ?_⟩
    have hnone := List.find?_eq_none.mp hfind _ (List.mem_map_of_mem hop)
    simpa using hnone

theorem wp_msrDesc (ctx : Context) (numCpu : ℕ) :
    wp (ctx.readBatchOp.forM fun op => ret (msrDesc numCpu op.cpu.toNat) :
        EStateM Exception Context Unit)
      (fun _ ctx' => ctx' = ctx ∧ ∀ op ∈ ctx.readBatchOp, op.cpu.toNat ≤ numCpu)
      (fun _ ctx' => ctx' = ctx ∧ ∃ op ∈ ctx.readBatchOp, numCpu < op.cpu.toNat) ctx := by
  refine Prog.wp_forM_done
    (I := fun (done : List BatchOp) ctx' => ctx' = ctx ∧ ∀ op ∈ done, op.cpu.toNat ≤ numCpu)
    ⟨rfl, fun _ hop => absurd hop List.not_mem_nil⟩ ?_
  rintro done op rest hops _ ⟨rfl, hdone⟩
  unfold msrDesc
  split_ifs with hcpu
  · refine ⟨rfl, op, ?_, hcpu⟩
    rw [hops]
    exact List.mem_append_right done List.mem_cons_self
  · refine ⟨rfl, fun op' hop' => ?_⟩
    obtain hop' | hop' := List.mem_append.mp hop'
    · exact hdone op' hop'
    · rw [List.mem_singleton.mp hop']
      exact Nat.not_lt.mp hcpu

/-- **What a batch that is read does to its context.**  When it succeeds, all operations have been
performed; when it fails, they have been run, or there is a cpu that has no file. -/
theorem wp_readContext (hreads : ∀ op ∈ ctx.readBatchOp, op.isrdmsr = true) (o : Outcome) :
    wp (readContext driverMask s o)
      (fun _ ctx' => ctx' = (afterReads o s.registers ctx).finish s.registers ∧
        (∀ op ∈ ctx.readBatchOp, o.err op = 0) ∧
          (s.isBatchEnabled = false → ∀ op ∈ ctx.readBatchOp, op.cpu.toNat ≤ s.numCpu))
      (fun _ ctx' => ctx' = afterReads o s.registers ctx ∨
        ctx' = ctx.refresh ∧ s.isBatchEnabled = false ∧
          ∃ op ∈ ctx.readBatchOp, s.numCpu < op.cpu.toNat) ctx := by
  have hempty : ctx.refresh.readBatch.numops = 0 → ctx.readBatchOp = [] :=
    List.length_eq_zero_iff.mp
  have hreturns : ctx.readBatchOp = [] → ctx.refresh = afterReads o s.registers ctx := by
    intro h
    simp [afterReads, Context.refresh, h]
  unfold readContext
  rw [wp_bind, wp_modify, wp_bind, wp_ite]
  constructor
  · intro henabled
    unfold msrIoctlRead
    rw [wp_bind, wp_get, wp_ite]
    constructor
    · intro hnumops
      rw [wp_pure, wp_modify, hreturns (hempty hnumops), hempty hnumops]
      simp
    · intro _
      refine wp_mono (wp_runReads ctx.refresh hreads _ _ _ _ _) ?_ ?_
      · rintro - _ ⟨rfl, hok⟩
        refine ⟨rfl, hok, fun h => ?_⟩
        rw [henabled] at h
        cases h
      · rintro - _ rfl
        exact .inl rfl
  · intro hfiles
    have hfiles := Bool.eq_false_iff.mpr hfiles
    unfold msrReadFiles
    rw [wp_bind, wp_get, wp_ite]
    constructor
    · intro hnumops
      rw [wp_pure, wp_modify, hreturns (hempty hnumops), hempty hnumops]
      simp
    · intro _
      rw [wp_bind]
      refine wp_mono (wp_msrDesc ctx.refresh s.numCpu) ?_ ?_
      · rintro - _ ⟨rfl, hcpus⟩
        refine wp_mono (wp_runReads ctx.refresh hreads _ _ _ _ _) ?_ ?_
        · rintro - _ ⟨rfl, hok⟩
          exact ⟨rfl, hok, fun _ => hcpus⟩
        · rintro - _ rfl
          exact .inl rfl
      · rintro - _ ⟨rfl, hcpu⟩
        exact .inr ⟨rfl, hfiles, hcpu⟩

/-! ### Turns of a context -/

/-- The context of a call. -/
def Call.batchCtx? : Call → Option ℤ
  | .createBatchContext => none
  | .addRead _ _ batchCtx => some batchCtx
  | .addWrite _ _ _ batchCtx => some batchCtx
  | .adjust _ _ _ batchCtx => some batchCtx
  | .readBatch batchCtx _ => some batchCtx
  | .writeBatch batchCtx _ _ => some batchCtx
  | .others _ => none

/-- What a call makes of its context. -/
def turn (driverMask : BitVec 32 → BitVec 64) (grow : ℕ → ℕ) (s : MSRIOImp) (ctx : Context) :
    Call → Context
  | .createBatchContext => ctx
  | .addRead cpuIdx offset _ =>
    ctx.pushBack grow ⟨BitVec.ofInt 16 cpuIdx, true, 0, offset.setWidth 32, 0, 0⟩
  | .addWrite cpuIdx offset reads _ =>
    { ctx with
      writes :=
        (final (Machine.addWrite driverMask cpuIdx offset reads) (s.machine ctx)).msrio }
  | .adjust batchIdx rawValue writeMask _ =>
    { ctx with
      writes := (final (Machine.adjust batchIdx rawValue writeMask) (s.machine ctx)).msrio }
  | .readBatch _ o => final (readContext driverMask s o) ctx
  | .writeBatch _ first second =>
    { ctx with
      writes := (final (Machine.writeBatch driverMask first second) (s.machine ctx)).msrio }
  | .others _ => ctx

/-- What makes a call calm for its context. -/
def CalmTurn (driverMask : BitVec 32 → BitVec 64) (s : MSRIOImp) (ctx : Context) : Call → Prop
  | .addRead _ _ _ => ctx.lastRead = none
  | .readBatch _ o =>
    ctx.lastRead ≠ none →
      returns (readContext driverMask s o) ctx = true ∨
        ∀ op ∈ ctx.readBatchOp, o.performed op = true → s.registers op.address = op.msrdata
  | .writeBatch _ first second =>
    ctx.lastRead = none →
      returns (Machine.writeBatch driverMask first second) (s.machine ctx) = false
  | _ => True

section OnContext

variable {α : Type} {batchCtx : ℤ} {method : Context → EStateM Exception MSRIOImp α}

theorem onContext_none (h : s.context? batchCtx = none) :
    onContext batchCtx method s = .error ⟨"vector::at", [], .runtime⟩ s := by
  show (match s.context? batchCtx with
    | none => throw ⟨"vector::at", [], .runtime⟩
    | some ctx => method ctx : EStateM Exception MSRIOImp α) s = _
  rw [h]
  rfl

theorem onContext_some (h : s.context? batchCtx = some ctx) :
    onContext batchCtx method s = method ctx s := by
  show (match s.context? batchCtx with
    | none => throw ⟨"vector::at", [], .runtime⟩
    | some ctx => method ctx : EStateM Exception MSRIOImp α) s = _
  rw [h]

theorem readBatch_some {o : Outcome} (h : s.context? batchCtx = some ctx) :
    readBatch driverMask batchCtx o s =
      zoom (fun _ => ctx) (fun ctx s => s.setContext batchCtx ctx) (readContext driverMask s o)
        s :=
  onContext_some h

theorem final_onContext_none (h : s.context? batchCtx = none) :
    final (onContext batchCtx method) s = s := by
  unfold final
  rw [onContext_none h]

theorem final_onContext_some (h : s.context? batchCtx = some ctx) :
    final (onContext batchCtx method) s = final (method ctx) s := by
  unfold final
  rw [onContext_some h]

theorem returns_onContext_some (h : s.context? batchCtx = some ctx) :
    returns (onContext batchCtx method) s = returns (method ctx) s := by
  unfold returns
  rw [onContext_some h]

end OnContext

variable {batchCtx : ℤ}

/-- **A call on a context that is there changes this context**, and nothing else that is read. -/
theorem next_some {c : Call} (hc : c.batchCtx? = some batchCtx)
    (h : s.context? batchCtx = some ctx) :
    (next driverMask grow s c).batchContext =
        s.batchContext.set batchCtx.toNat (turn driverMask grow s ctx c) ∧
      (next driverMask grow s c).numCpu = s.numCpu ∧
        (next driverMask grow s c).isBatchEnabled = s.isBatchEnabled := by
  cases c with
  | createBatchContext => cases hc
  | others registers => cases hc
  | addRead cpuIdx offset _ =>
    cases hc
    have hfinal : next driverMask grow s (.addRead cpuIdx offset batchCtx) = _ :=
      final_onContext_some h
    rw [hfinal]
    exact ⟨rfl, rfl, rfl⟩
  | addWrite cpuIdx offset reads _ =>
    cases hc
    have hfinal : next driverMask grow s (.addWrite cpuIdx offset reads batchCtx) = _ :=
      (final_onContext_some h).trans final_zoom
    rw [hfinal]
    exact ⟨rfl, rfl, rfl⟩
  | adjust batchIdx rawValue writeMask _ =>
    cases hc
    have hfinal : next driverMask grow s (.adjust batchIdx rawValue writeMask batchCtx) = _ :=
      (final_onContext_some h).trans final_zoom
    rw [hfinal]
    exact ⟨rfl, rfl, rfl⟩
  | readBatch _ o =>
    cases hc
    have hfinal : next driverMask grow s (.readBatch batchCtx o) =
        s.setContext batchCtx (final (readContext driverMask s o) ctx) := by
      show final (readBatch driverMask batchCtx o) s = _
      unfold final
      rw [readBatch_some h]
      exact final_zoom
    rw [hfinal]
    exact ⟨rfl, rfl, rfl⟩
  | writeBatch _ first second =>
    cases hc
    have hfinal : next driverMask grow s (.writeBatch batchCtx first second) = _ :=
      (final_onContext_some h).trans final_zoom
    rw [hfinal]
    exact ⟨rfl, rfl, rfl⟩

theorem next_none {c : Call} (hc : c.batchCtx? = some batchCtx)
    (h : s.context? batchCtx = none) : next driverMask grow s c = s := by
  cases c with
  | createBatchContext => cases hc
  | others registers => cases hc
  | addRead => cases hc; exact final_onContext_none h
  | addWrite => cases hc; exact final_onContext_none h
  | adjust => cases hc; exact final_onContext_none h
  | readBatch => cases hc; exact final_onContext_none h
  | writeBatch => cases hc; exact final_onContext_none h

theorem returns_readBatch {o : Outcome} (h : s.context? batchCtx = some ctx) :
    returns (readBatch driverMask batchCtx o) s =
      returns (readContext driverMask s o) ctx := by
  unfold returns
  rw [readBatch_some h]
  exact Prog.returns_zoom

theorem returns_writeBatch {first second : Outcome}
    (h : s.context? batchCtx = some ctx) :
    returns (writeBatch driverMask batchCtx first second) s =
      returns (Machine.writeBatch driverMask first second) (s.machine ctx) :=
  (returns_onContext_some h).trans Prog.returns_zoom

theorem calm_iff {c : Call} :
    Calm driverMask s c ↔ ∀ batchCtx ctx, c.batchCtx? = some batchCtx →
      s.context? batchCtx = some ctx → CalmTurn driverMask s ctx c := by
  cases c with
  | createBatchContext => exact ⟨fun _ _ _ hc => (nomatch hc), fun _ => trivial⟩
  | others registers => exact ⟨fun _ _ _ hc => (nomatch hc), fun _ => trivial⟩
  | addWrite => exact ⟨fun _ _ _ _ _ => trivial, fun _ => trivial⟩
  | adjust => exact ⟨fun _ _ _ _ _ => trivial, fun _ => trivial⟩
  | addRead cpuIdx offset batchCtx =>
    constructor
    · intro h _ ctx hc hctx
      cases hc
      exact h ctx hctx
    · intro h ctx hctx
      exact h batchCtx ctx rfl hctx
  | readBatch batchCtx o =>
    constructor
    · intro h _ ctx hc hctx hread
      cases hc
      rw [← returns_readBatch hctx]
      exact h ctx hctx hread
    · intro h ctx hctx hread
      rw [returns_readBatch hctx]
      exact h batchCtx ctx rfl hctx hread
  | writeBatch batchCtx first second =>
    constructor
    · intro h _ ctx hc hctx hread
      cases hc
      rw [← returns_writeBatch hctx]
      exact h ctx hctx hread
    · intro h ctx hctx hread
      rw [returns_writeBatch hctx]
      exact h batchCtx ctx rfl hctx hread

end Runs

end Geopm.Pio.MSRSample
