import Geopm.Exception
import Geopm.Lib.Lts
import Geopm.Lib.Mask
import Geopm.Lib.Prog

/-!
# Batched writes of `MSRIO`

`MSRIOImp::write_batch` reads every register that has been added, changes the bits that have been
adjusted, and writes the registers back, in two stages that use one list of operations.

* `Machine` : the object with one batch context, and the registers;
* `Machine.addWrite`, `adjust`, `writeBatch` : the methods; `writeMsr` : a single write;
* `Machine.Current` : no operation is left from a batch that has failed while it wrote, or what it
  holds is still so;
* `Machine.writeBatch_eq_writeMsr` : a batch that succeeds does what the single writes do, just when
  the operations are current.
-/

namespace Geopm.Pio

open Function (update update_self update_of_ne)
open Prog (final wp wp_bind wp_get wp_ite wp_pure wp_set wp_final wp_modify wp_mono)
open List hiding get modify set

/-- A register: the cpu and the offset in its file. -/
abbrev Address := ℕ × BitVec 64

/-- What the registers hold. -/
abbrev Registers := Address → BitVec 64

/-- `m_msr_batch_op_s`. -/
structure BatchOp where
  cpu : BitVec 16
  isrdmsr : Bool
  err : ℤ
  msr : BitVec 32
  msrdata : BitVec 64
  wmask : BitVec 64
deriving DecidableEq

/-- The register of an operation. -/
def BatchOp.address (op : BatchOp) : Address := (op.cpu.toNat, op.msr.setWidth 64)

/-- The members of `MSRIOImp` that are used for writes, with one batch context. -/
structure MSRIO where
  numCpu : ℕ
  isBatchEnabled : Bool
  offsetMaskMap : BitVec 64 → Option (BitVec 64) := fun _ => none
  writeBatchOp : List BatchOp := []
  writeBatchIdxMap : Address → Option ℕ := fun _ => none
  writeVal : List (BitVec 64) := []
  writeMask : List (BitVec 64) := []
  isBatchRead : Bool := false

/-- An adjustment: the register, the bits and the mask. -/
structure Adjustment where
  address : Address
  rawValue : BitVec 64
  writeMask : BitVec 64

/-- The object and the registers.  The rest is the history: the registers that have been added, and
what has been adjusted since the last batch that succeeded. -/
structure Machine where
  msrio : MSRIO
  registers : Registers
  slots : List Address := []
  since : List Adjustment := []

/-- What the driver, or the ring of the files, makes of a list of operations: what it returns, the
errors of the operations, and which of them it performs. -/
structure Outcome where
  ret : ℤ
  err : BatchOp → ℤ
  performed : BatchOp → Bool
  performs : ∀ op, err op = 0 → performed op = true

/-! ### Single writes -/

/-- `msr_desc`, as far as the index is checked. -/
def msrDesc (numCpu cpuIdx : ℕ) : Except Exception Unit :=
  if numCpu < cpuIdx then
    .error ⟨"MSRIOImp::msr_desc(): cpu_idx=% out of range, num_cpu=%", [cpuIdx, numCpu], .invalid⟩
  else .ok ()

/-- `write_msr`, when the file is read and written without an error. -/
def writeMsr (numCpu : ℕ) (a : Adjustment) (registers : Registers) : Except Exception Registers := do
  if a.rawValue &&& a.writeMask ≠ a.rawValue then
    .error ⟨"MSRIOImp::write_msr(): raw_value does not obey write_mask, raw_value=0x% write_mask=0x%",
      [a.rawValue.toNat, a.writeMask.toNat], .invalid⟩
  else do
    msrDesc numCpu a.address.1
    let writeValue := registers a.address
    let writeValue := writeValue &&& ~~~a.writeMask
    let writeValue := writeValue ||| a.rawValue
    pure (update registers a.address writeValue)

/-- The single writes of a list, in order. -/
def writeMsrs (numCpu : ℕ) : List Adjustment → Registers → Except Exception Registers
  | [], registers => .ok registers
  | a :: as, registers => do
    let registers ← writeMsr numCpu a registers
    writeMsrs numCpu as registers

namespace Machine

/-! ### The methods -/

section Methods

-- the write mask that the driver has for an offset
variable (driverMask : BitVec 32 → BitVec 64)

/-- `system_write_mask`; `reads` tells whether the driver reads the mask without an error. -/
def systemWriteMask (offset : BitVec 64) (reads : Bool) : EStateM Exception Machine (BitVec 64) := do
  let s ← get
  if s.msrio.isBatchEnabled = false then pure (BitVec.allOnes 64)
  else
    match s.msrio.offsetMaskMap offset with
    | some mask => pure mask
    | none =>
      if reads = false then
        throw ⟨"MSRIOImp::system_write_mask(): read of mask failed", [], .invalid⟩
      else do
        let wmask := driverMask (offset.setWidth 32)
        set { s with
          msrio := { s.msrio with
            offsetMaskMap := update s.msrio.offsetMaskMap offset (some wmask) } }
        pure wmask

/-- `add_write`; the index of the cpu is checked by `vector::at`. -/
def addWrite (cpuIdx : ℤ) (offset : BitVec 64) (reads : Bool) : EStateM Exception Machine ℕ := do
  let s ← get
  if cpuIdx < 0 ∨ (s.msrio.numCpu : ℤ) ≤ cpuIdx then
    throw ⟨"vector::at", [], .runtime⟩
  else
    match s.msrio.writeBatchIdxMap (cpuIdx.toNat, offset) with
    | some result => pure result
    | none => do
      let result := s.msrio.writeBatchOp.length
      let wmask ← systemWriteMask driverMask offset reads
      modify fun s => { s with
        msrio := { s.msrio with
          writeBatchOp := s.msrio.writeBatchOp ++
            [⟨BitVec.ofNat 16 cpuIdx.toNat, true, 0, offset.setWidth 32, 0, wmask⟩]
          writeVal := s.msrio.writeVal ++ [0]
          writeMask := s.msrio.writeMask ++ [0]
          writeBatchIdxMap :=
            update s.msrio.writeBatchIdxMap (cpuIdx.toNat, offset) (some result) }
        slots := s.slots ++ [(cpuIdx.toNat, offset)] }
      pure result

/-- `adjust`. -/
def adjust (batchIdx : ℤ) (rawValue writeMask : BitVec 64) : EStateM Exception Machine Unit := do
  let s ← get
  match if batchIdx < 0 then none else s.msrio.writeBatchOp[batchIdx.toNat]? with
  | none => throw ⟨"MSRIOImp::adjust(): batch_idx out of range: %", [batchIdx], .invalid⟩
  | some op =>
    if ~~~op.wmask &&& writeMask ≠ 0 then
      throw ⟨"MSRIOImp::adjust(): write_mask is out of bounds", [], .invalid⟩
    else if rawValue &&& writeMask ≠ rawValue then
      throw ⟨"MSRIOImp::adjust(): raw_value does not obey write_mask, raw_value=0x% write_mask=0x%",
        [rawValue.toNat, writeMask.toNat], .invalid⟩
    else
      set { s with
        msrio := { s.msrio with
          writeVal := s.msrio.writeVal.modify batchIdx.toNat
            fun v => (v &&& ~~~writeMask) ||| rawValue
          writeMask := s.msrio.writeMask.modify batchIdx.toNat fun m => m ||| writeMask }
        since := s.since ++ (s.slots[batchIdx.toNat]?.toList.map (Adjustment.mk · rawValue writeMask)) }

/-- The bits that can be written with an operation: the driver applies its mask, a file has none. -/
def deviceMask (isBatchEnabled : Bool) (msr : BitVec 32) : BitVec 64 :=
  if isBatchEnabled then driverMask msr else BitVec.allOnes 64

/-- An operation is performed, or not. -/
def runOp (isBatchEnabled : Bool) (o : Outcome) (registers : Registers) (op : BatchOp) :
    Registers × BatchOp :=
  if o.performed op = false then (registers, { op with err := o.err op })
  else if op.isrdmsr then
    (registers, { op with err := o.err op, msrdata := registers op.address })
  else
    let wmask := deviceMask driverMask isBatchEnabled op.msr
    (update registers op.address
      ((registers op.address &&& ~~~wmask) ||| (op.msrdata &&& wmask)),
      { op with err := o.err op })

/-- The operations of a list, in order. -/
def runOps (isBatchEnabled : Bool) (o : Outcome) :
    Registers → List BatchOp → Registers × List BatchOp
  | registers, [] => (registers, [])
  | registers, op :: ops =>
    let (registers, op) := runOp driverMask isBatchEnabled o registers op
    let (registers, ops) := runOps isBatchEnabled o registers ops
    (registers, op :: ops)

/-- The operations of the batch context are run. -/
def runBatch (o : Outcome) (s : Machine) : Machine :=
  let (registers, ops) := runOps driverMask s.msrio.isBatchEnabled o s.registers s.msrio.writeBatchOp
  { s with registers := registers, msrio := { s.msrio with writeBatchOp := ops } }

def msrIoctl (o : Outcome) : EStateM Exception Machine Unit := do
  modify (runBatch driverMask o)
  let s ← get
  if o.ret = -1 then
    throw ⟨"MSRIOImp::msr_ioctl(): call to ioctl() for /dev/cpu/msr_batch failed:  system error: ",
      [], .msrRead⟩
  else
    match s.msrio.writeBatchOp.find? (·.err ≠ 0) with
    | some op => throw ⟨"MSRIOImp::msr_ioctl(): operation failed at offset 0x% system error: %",
        [op.msr.toNat, op.err], .msrWrite⟩
    | none => pure ()

/-- `msr_batch_io`; the ring may refuse the operations. -/
def msrBatchIo (o : Outcome) : EStateM Exception Machine Unit := do
  modify (runBatch driverMask o)
  let s ← get
  if o.ret = -1 then
    throw ⟨"Failed to get a completion event from IO uring", [], .runtime⟩
  else
    match s.msrio.writeBatchOp.find? (·.err ≠ 0) with
    | some op => throw ⟨"MSRIOImp::msr_batch_io(): failed at offset 0x% system error: %",
        [op.msr.toNat, op.err], if op.isrdmsr then .msrRead else .msrWrite⟩
    | none => pure ()

/-- The loop that modifies what has been read, with the write masks. -/
def modifyOps : List BatchOp → List (BitVec 64) → List (BitVec 64) → List BatchOp
  | op :: ops, mask :: masks, val :: vals =>
    { op with isrdmsr := false, msrdata := (op.msrdata &&& ~~~mask) ||| val } ::
      modifyOps ops masks vals
  | ops, _, _ => ops

/-- The loop that sets the operations to read. -/
def readAgain (s : Machine) : Machine :=
  { s with
    msrio := { s.msrio with
      writeBatchOp := s.msrio.writeBatchOp.map fun op => { op with isrdmsr := true } } }

/-- The operations are run as they are, modified, run again to write, and set to read. -/
def readModifyWrite (io : Outcome → EStateM Exception Machine Unit) (first second : Outcome) :
    EStateM Exception Machine Unit := do
  io first
  modify fun s => { s with
    msrio := { s.msrio with
      writeBatchOp := modifyOps s.msrio.writeBatchOp s.msrio.writeMask s.msrio.writeVal } }
  io second
  modify readAgain

def msrIoctlWrite (first second : Outcome) : EStateM Exception Machine Unit := do
  let s ← get
  if s.msrio.writeBatchOp = [] then pure ()
  else if s.msrio.writeVal.length ≠ s.msrio.writeBatchOp.length ∨
      s.msrio.writeMask.length ≠ s.msrio.writeBatchOp.length then
    throw ⟨"MSRIOImp::msr_ioctl_write(): Invalid operations stored in object, incorrectly sized", [],
      .invalid⟩
  else readModifyWrite (msrIoctl driverMask) first second

def msrRmwFiles (first second : Outcome) : EStateM Exception Machine Unit := do
  let s ← get
  if s.msrio.writeBatchOp = [] then pure ()
  else readModifyWrite (msrBatchIo driverMask) first second

/-- Nothing is adjusted. -/
def clear (s : Machine) : Machine :=
  { s with
    msrio := { s.msrio with
      writeVal := s.msrio.writeVal.map fun _ => 0
      writeMask := s.msrio.writeMask.map fun _ => 0
      isBatchRead := true }
    since := [] }

def writeBatch (first second : Outcome) : EStateM Exception Machine Unit := do
  let s ← get
  (if s.msrio.isBatchEnabled then msrIoctlWrite driverMask first second
    else msrRmwFiles driverMask first second)
  modify clear

end Methods

/-! ### Runs -/

/-- What happens: the calls, with what the driver makes of them, and what others write. -/
inductive Call where
  | addWrite (cpuIdx : ℤ) (offset : BitVec 64) (reads : Bool)
  | adjust (batchIdx : ℤ) (rawValue writeMask : BitVec 64)
  | writeBatch (first second : Outcome)
  | others (registers : Registers)

section Runs

variable (driverMask : BitVec 32 → BitVec 64)

/-- The state after a call. -/
def next (s : Machine) : Call → Machine
  | .addWrite cpuIdx offset reads => final (addWrite driverMask cpuIdx offset reads) s
  | .adjust batchIdx rawValue writeMask => final (adjust batchIdx rawValue writeMask) s
  | .writeBatch first second => final (writeBatch driverMask first second) s
  | .others registers => { s with registers := registers }

/-- A new object. -/
def start (numCpu : ℕ) (isBatchEnabled : Bool) (registers : Registers) : Machine where
  msrio := { numCpu := numCpu, isBatchEnabled := isBatchEnabled }
  registers := registers

/-- The `i`-th elements of the parallel lists. -/
structure SlotIn (slots : List Address) (ops : List BatchOp) (masks vals : List (BitVec 64)) (i : ℕ)
    (a : Address) (op : BatchOp) (mask val : BitVec 64) : Prop where
  address : slots[i]? = some a
  op : ops[i]? = some op
  mask : masks[i]? = some mask
  val : vals[i]? = some val

/-- The parts of the `i`-th slot: its register, its operation, its mask and its value. -/
abbrev Slot (s : Machine) :=
  SlotIn s.slots s.msrio.writeBatchOp s.msrio.writeMask s.msrio.writeVal

/-- The operation is on the register of the slot, and its mask is that of the driver. -/
structure OpOf (isBatchEnabled : Bool) (a : Address) (op : BatchOp) : Prop where
  cpu : op.cpu = BitVec.ofNat 16 a.1
  msr : op.msr = a.2.setWidth 32
  wmask : op.wmask = deviceMask driverMask isBatchEnabled op.msr

/-- The slots agree with the registers that have been added and with what has been adjusted. -/
structure Inv (s : Machine) : Prop where
  ops : s.msrio.writeBatchOp.length = s.slots.length
  masks : s.msrio.writeMask.length = s.slots.length
  vals : s.msrio.writeVal.length = s.slots.length
  nodup : s.slots.Nodup
  cpus : ∀ a ∈ s.slots, a.1 < s.msrio.numCpu
  added : ∀ a, s.msrio.writeBatchIdxMap a = none → a ∉ s.slots
  cached : ∀ offset mask, s.msrio.offsetMaskMap offset = some mask →
    mask = driverMask (offset.setWidth 32)
  opOf : ∀ {i a op mask val}, s.Slot i a op mask val →
    OpOf driverMask s.msrio.isBatchEnabled a op
  within : ∀ {i a op mask val}, s.Slot i a op mask val →
    val &&& ~~~mask = 0#64 ∧ mask &&& ~~~op.wmask = 0#64
  pending : ∀ registers, ∃ result, writeMsrs s.msrio.numCpu s.since registers = .ok result ∧
    (∀ a, a ∉ s.slots → result a = registers a) ∧
    ∀ {i a op mask val}, s.Slot i a op mask val → result a = Mask.overlay mask val (registers a)

/-- The fields of the operations hold the cpus and the offsets. -/
def Fits (s : Machine) : Prop := ∀ a ∈ s.slots, a.1 < 2 ^ 16 ∧ a.2.toNat < 2 ^ 32

/-- An operation that is left to write, by a batch that has failed while it wrote, holds what the
register holds, where the driver lets it write and nothing has been adjusted. -/
def Current (s : Machine) : Prop :=
  ∀ {i a op mask val}, s.Slot i a op mask val → op.isrdmsr = false →
    op.msrdata &&& op.wmask &&& ~~~mask = s.registers a &&& op.wmask &&& ~~~mask

variable {driverMask} {s : Machine}

theorem inv_start (numCpu : ℕ) (isBatchEnabled : Bool) (registers : Registers) :
    Inv driverMask (start numCpu isBatchEnabled registers) where
  ops := rfl
  masks := rfl
  vals := rfl
  nodup := nodup_nil
  cpus _ ha := absurd ha not_mem_nil
  added _ _ := not_mem_nil
  cached _ _ h := nomatch h
  opOf h := nomatch h.address
  within h := nomatch h.address
  pending registers := ⟨registers, rfl, fun _ _ => rfl, fun h => nomatch h.address⟩

/-- Every slot has its parts. -/
theorem Inv.exists_slot (h : Inv driverMask s) {i : ℕ} {a : Address} (ha : s.slots[i]? = some a) :
    ∃ op mask val, s.Slot i a op mask val := by
  obtain ⟨hi, -⟩ := List.getElem?_eq_some_iff.mp ha
  exact ⟨_, _, _, ha, getElem?_eq_getElem (h.ops ▸ hi), getElem?_eq_getElem (h.masks ▸ hi),
    getElem?_eq_getElem (h.vals ▸ hi)⟩

/-! ### Adding a register -/

theorem wp_systemWriteMask {offset : BitVec 64} {reads : Bool}
    {Q : BitVec 64 → Machine → Prop} {E : Exception → Machine → Prop} (h : Inv driverMask s)
    (hQ : ∀ map, Inv driverMask { s with msrio := { s.msrio with offsetMaskMap := map } } →
      Q (deviceMask driverMask s.msrio.isBatchEnabled (offset.setWidth 32))
        { s with msrio := { s.msrio with offsetMaskMap := map } })
    (hE : ∀ e, E e s) :
    wp (systemWriteMask driverMask offset reads) Q E s := by
  unfold systemWriteMask
  rw [wp_bind, wp_get, wp_ite]
  unfold deviceMask at hQ
  constructor
  · intro hfiles
    rw [wp_pure]
    rw [if_neg (by rw [hfiles]; exact Bool.false_ne_true)] at hQ
    exact hQ _ h
  · intro henabled
    rw [Bool.not_eq_false] at henabled
    rw [if_pos henabled] at hQ
    cases hmap : s.msrio.offsetMaskMap offset with
    | some mask =>
      rw [h.cached offset mask hmap]
      exact hQ _ h
    | none =>
      dsimp only
      rw [wp_ite]
      refine ⟨fun _ => hE _, fun _ => ?_⟩
      rw [wp_bind, wp_set, wp_pure]
      refine hQ _ { h with cached := fun o mask ho => ?_ }
      dsimp only at ho
      by_cases heq : o = offset
      · rw [heq, update_self] at ho
        rw [heq, ← Option.some.inj ho]
      · rw [update_of_ne heq] at ho
        exact h.cached o mask ho

variable {ops : List BatchOp} {masks vals : List (BitVec 64)}

theorem SlotIn.of_concat {slots : List Address}     {a a' : Address} {op op' : BatchOp} {mask mask' val val' : BitVec 64} {i : ℕ}
    (hops : ops.length = slots.length) (hmasks : masks.length = slots.length)
    (hvals : vals.length = slots.length)
    (h : SlotIn (slots ++ [a']) (ops ++ [op']) (masks ++ [mask']) (vals ++ [val']) i a op mask val) :
    SlotIn slots ops masks vals i a op mask val ∨ a = a' ∧ op = op' ∧ mask = mask' ∧ val = val' := by
  obtain ⟨h₁, h₂, h₃, h₄⟩ := h
  rw [getElem?_append] at h₁ h₂ h₃ h₄
  rw [hops] at h₂
  rw [hmasks] at h₃
  rw [hvals] at h₄
  by_cases hi : i < slots.length
  · rw [if_pos hi] at h₁ h₂ h₃ h₄
    exact Or.inl ⟨h₁, h₂, h₃, h₄⟩
  · rw [if_neg hi] at h₁ h₂ h₃ h₄
    rw [getElem?_singleton] at h₁ h₂ h₃ h₄
    split_ifs at h₁ h₂ h₃ h₄
    exact Or.inr ⟨(Option.some.inj h₁).symm, (Option.some.inj h₂).symm, (Option.some.inj h₃).symm,
      (Option.some.inj h₄).symm⟩

theorem Inv.addWrite (h : Inv driverMask s) (cpuIdx : ℤ) (offset : BitVec 64) (reads : Bool) :
    Inv driverMask (final (Machine.addWrite driverMask cpuIdx offset reads) s) := by
  refine (wp_final (P := Inv driverMask)).mp ?_
  unfold Machine.addWrite
  rw [wp_bind, wp_get, wp_ite]
  refine ⟨fun _ => h, fun hcpu => ?_⟩
  rw [not_or, not_lt, not_le] at hcpu
  cases hidx : s.msrio.writeBatchIdxMap (cpuIdx.toNat, offset) with
  | some result => exact h
  | none =>
    dsimp only
    rw [wp_bind]
    refine wp_systemWriteMask h (fun map hmap => ?_) fun _ => h
    rw [wp_bind, wp_modify, wp_pure]
    have hnew : (cpuIdx.toNat, offset) ∉ s.slots := h.added _ hidx
    refine { ops := ?_, masks := ?_, vals := ?_, nodup := ?_, cpus := ?_, added := ?_,
             cached := hmap.cached, opOf := ?_, within := ?_, pending := ?_ }
    · simp [h.ops]
    · simp [h.masks]
    · simp [h.vals]
    · exact nodup_append.mpr ⟨h.nodup, nodup_singleton _, fun a ha b hb hab =>
        hnew (mem_singleton.mp hb ▸ hab ▸ ha)⟩
    · intro a ha
      obtain ha | ha := mem_append.mp ha
      · exact h.cpus a ha
      · rw [mem_singleton.mp ha]
        change cpuIdx.toNat < s.msrio.numCpu
        omega
    · intro a ha hmem
      dsimp only at ha hmem
      by_cases heq : a = (cpuIdx.toNat, offset)
      · rw [heq, update_self] at ha
        cases ha
      · rw [update_of_ne heq] at ha
        obtain hmem | hmem := mem_append.mp hmem
        · exact h.added a ha hmem
        · exact heq (mem_singleton.mp hmem)
    · intro i a op mask val hslot
      obtain hslot | ⟨rfl, rfl, -, -⟩ := hslot.of_concat h.ops h.masks h.vals
      · exact h.opOf hslot
      · exact ⟨rfl, rfl, rfl⟩
    · intro i a op mask val hslot
      obtain hslot | ⟨-, -, rfl, rfl⟩ := hslot.of_concat h.ops h.masks h.vals
      · exact h.within hslot
      · exact ⟨BitVec.zero_and, BitVec.zero_and⟩
    · intro registers
      obtain ⟨result, hresult, hsame, hslots⟩ := h.pending registers
      refine ⟨result, hresult, fun a ha => hsame a fun hmem => ha (mem_append_left _ hmem), ?_⟩
      intro i a op mask val hslot
      obtain hslot | ⟨rfl, -, rfl, rfl⟩ := hslot.of_concat h.ops h.masks h.vals
      · exact hslots hslot
      · exact (hsame _ hnew).trans Mask.overlay_zero.symm

/-! ### Adjusting -/

theorem writeMsrs_concat {numCpu : ℕ} {as : List Adjustment} {a : Adjustment}
    {registers result : Registers} (h : writeMsrs numCpu as registers = .ok result) :
    writeMsrs numCpu (as ++ [a]) registers = writeMsr numCpu a result := by
  induction as generalizing registers with
  | nil =>
    cases h
    change (writeMsr numCpu a result >>= fun registers => Except.ok registers) = _
    cases writeMsr numCpu a result <;> rfl
  | cons b as ih =>
    change (writeMsr numCpu b registers >>= writeMsrs numCpu as) = _ at h
    change (writeMsr numCpu b registers >>= writeMsrs numCpu (as ++ [a])) = _
    cases hb : writeMsr numCpu b registers with
    | error e => rw [hb] at h; cases h
    | ok registers' =>
      rw [hb] at h
      exact ih h

theorem writeMsr_eq {numCpu : ℕ} {a : Adjustment} {registers : Registers}
    (hobeys : a.rawValue &&& a.writeMask = a.rawValue) (hcpu : a.address.1 < numCpu) :
    writeMsr numCpu a registers = .ok (update registers a.address
      (Mask.overlay a.writeMask a.rawValue (registers a.address))) := by
  unfold writeMsr
  rw [if_neg (not_not_intro hobeys), msrDesc, if_neg hcpu.le.not_gt]
  rfl

theorem Inv.slot_inj (h : Inv driverMask s) {i j : ℕ} {a : Address} (hi : s.slots[i]? = some a)
    (hj : s.slots[j]? = some a) : i = j := by
  obtain ⟨hlt, hi'⟩ := List.getElem?_eq_some_iff.mp hi
  obtain ⟨hlt', hj'⟩ := List.getElem?_eq_some_iff.mp hj
  exact (List.Nodup.getElem_inj_iff h.nodup).mp (hi'.trans hj'.symm)

theorem SlotIn.of_modify {slots : List Address}     {f g : BitVec 64 → BitVec 64} {a : Address} {op : BatchOp} {mask val : BitVec 64} {i j : ℕ}
    (h : SlotIn slots ops (masks.modify j f) (vals.modify j g) i a op mask val) :
    ∃ m v, SlotIn slots ops masks vals i a op m v ∧
      mask = (if j = i then f m else m) ∧ val = if j = i then g v else v := by
  obtain ⟨h₁, h₂, h₃, h₄⟩ := h
  rw [getElem?_modify, Option.map_eq_map, Option.map_eq_some_iff] at h₃ h₄
  obtain ⟨m, hm, rfl⟩ := h₃
  obtain ⟨v, hv, rfl⟩ := h₄
  exact ⟨m, v, ⟨h₁, h₂, hm, hv⟩, rfl, rfl⟩

theorem Inv.adjust (h : Inv driverMask s) (batchIdx : ℤ) (rawValue writeMask : BitVec 64) :
    Inv driverMask (final (Machine.adjust batchIdx rawValue writeMask) s) := by
  refine (wp_final (P := Inv driverMask)).mp ?_
  unfold Machine.adjust
  rw [wp_bind, wp_get]
  split
  · exact h
  · rename_i op hop
    split_ifs at hop
    rw [wp_ite]
    refine ⟨fun _ => h, fun hbounds => ?_⟩
    rw [wp_ite]
    refine ⟨fun _ => h, fun hobeys => ?_⟩
    rw [not_not] at hbounds hobeys
    rw [wp_set]
    generalize batchIdx.toNat = b at hop ⊢
    obtain ⟨hb, -⟩ := List.getElem?_eq_some_iff.mp hop
    obtain ⟨a, ha⟩ : ∃ a, s.slots[b]? = some a := ⟨_, getElem?_eq_getElem (h.ops ▸ hb)⟩
    rw [ha]
    refine { ops := h.ops, masks := ?_, vals := ?_, nodup := h.nodup, cpus := h.cpus,
             added := h.added, cached := h.cached, opOf := ?_, within := ?_, pending := ?_ }
    · simp [h.masks]
    · simp [h.vals]
    · intro i a op mask val hmodified
      obtain ⟨m, v, hslot, -, -⟩ := hmodified.of_modify
      exact h.opOf hslot
    · intro i a' op' mask val hmodified
      obtain ⟨m, v, hslot, rfl, rfl⟩ := hmodified.of_modify
      obtain ⟨hval, hmask⟩ := h.within hslot
      by_cases hi : b = i
      · subst hi
        obtain rfl : op = op' := Option.some.inj (hop.symm.trans hslot.op)
        rw [if_pos rfl, if_pos rfl]
        refine ⟨Mask.overlay_within hval (Mask.and_eq_self_iff.mp hobeys), ?_⟩
        rw [BitVec.and_comm, BitVec.and_or_distrib_left, hbounds, BitVec.and_comm, hmask]
        rfl
      · rw [if_neg hi, if_neg hi]
        exact ⟨hval, hmask⟩
    · intro registers
      obtain ⟨result, hresult, hsame, hslots⟩ := h.pending registers
      have hmem : a ∈ s.slots := mem_of_getElem? ha
      refine ⟨_, (writeMsrs_concat hresult).trans (writeMsr_eq hobeys (h.cpus a hmem)), ?_, ?_⟩
      · intro a' ha'
        have hne : a' ≠ a := fun heq => ha' (heq ▸ hmem)
        exact (update_of_ne hne _ _).trans (hsame a' ha')
      · intro i a' op' mask val hmodified
        obtain ⟨m, v, hslot, rfl, rfl⟩ := hmodified.of_modify
        by_cases hi : b = i
        · subst hi
          obtain rfl : a = a' := Option.some.inj (ha.symm.trans hslot.address)
          rw [if_pos rfl, if_pos rfl]
          refine (update_self a _ _).trans ?_
          rw [hslots hslot]
          exact Mask.overlay_overlay
        · have hne : a' ≠ a := fun heq => hi (h.slot_inj ha (heq ▸ hslot.address))
          rw [if_neg hi, if_neg hi]
          exact (update_of_ne hne _ _).trans (hslots hslot)

/-! ### The stages of a batch -/

/-- The operations are on the same register, and have the same mask. -/
structure SameOp (op op' : BatchOp) : Prop where
  cpu : op'.cpu = op.cpu
  msr : op'.msr = op.msr
  wmask : op'.wmask = op.wmask

/-- Other registers and other operations. -/
def withOps (s : Machine) (registers : Registers) (ops : List BatchOp) : Machine :=
  { s with registers := registers, msrio := { s.msrio with writeBatchOp := ops } }

/-- A slot with other operations. -/
theorem SlotIn.of_same {slots : List Address} {ops ops' : List BatchOp}
    {a : Address} {op' : BatchOp} {mask val : BitVec 64} {i : ℕ}
    (hsame : List.Forall₂ SameOp ops ops') (h : SlotIn slots ops' masks vals i a op' mask val) :
    ∃ op, SlotIn slots ops masks vals i a op mask val ∧ SameOp op op' := by
  obtain ⟨hlt', hop'⟩ := List.getElem?_eq_some_iff.mp h.op
  have hlt : i < ops.length := hsame.length_eq ▸ hlt'
  refine ⟨ops[i], ⟨h.address, getElem?_eq_getElem hlt, h.mask, h.val⟩, ?_⟩
  rw [← hop']
  exact hsame.get hlt hlt'

theorem Inv.withOps (h : Inv driverMask s) (registers : Registers)
    (hsame : List.Forall₂ SameOp s.msrio.writeBatchOp ops) :
    Inv driverMask (s.withOps registers ops) where
  ops := hsame.length_eq.symm.trans h.ops
  masks := h.masks
  vals := h.vals
  nodup := h.nodup
  cpus := h.cpus
  added := h.added
  cached := h.cached
  opOf hslot := by
    obtain ⟨op, hslot, hop⟩ := hslot.of_same hsame
    obtain ⟨hcpu, hmsr, hwmask⟩ := h.opOf hslot
    refine ⟨hop.cpu.trans hcpu, hop.msr.trans hmsr, ?_⟩
    rw [hop.wmask, hop.msr]
    exact hwmask
  within hslot := by
    obtain ⟨op, hslot, hop⟩ := hslot.of_same hsame
    rw [hop.wmask]
    exact h.within hslot
  pending registers := by
    obtain ⟨result, hresult, hsame', hslots⟩ := h.pending registers
    refine ⟨result, hresult, hsame', fun hslot => ?_⟩
    obtain ⟨op, hslot, -⟩ := hslot.of_same hsame
    exact hslots hslot

variable (isBatchEnabled : Bool)

theorem runOp_same (o : Outcome) (registers : Registers) (op : BatchOp) :
    SameOp op (runOp driverMask isBatchEnabled o registers op).2 := by
  unfold runOp
  split_ifs <;> exact ⟨rfl, rfl, rfl⟩

theorem runOps_same (o : Outcome) (registers : Registers)
    (ops : List BatchOp) :
    List.Forall₂ SameOp ops (runOps driverMask isBatchEnabled o registers ops).2 := by
  induction ops generalizing registers with
  | nil => exact List.Forall₂.nil
  | cons op ops ih => exact List.Forall₂.cons (runOp_same isBatchEnabled o registers op) (ih _)

theorem modifyOps_same (ops : List BatchOp) (masks vals : List (BitVec 64)) :
    List.Forall₂ SameOp ops (modifyOps ops masks vals) := by
  induction ops generalizing masks vals with
  | nil => cases masks <;> cases vals <;> exact List.Forall₂.nil
  | cons op ops ih =>
    have hrefl : List.Forall₂ SameOp (op :: ops) (op :: ops) :=
      forall₂_same.mpr fun _ _ => ⟨rfl, rfl, rfl⟩
    cases masks with
    | nil => exact hrefl
    | cons mask masks =>
      cases vals with
      | nil => exact hrefl
      | cons val vals => exact List.Forall₂.cons ⟨rfl, rfl, rfl⟩ (ih masks vals)

theorem modifyOps_getElem? {i : ℕ} {op : BatchOp}
    {mask val : BitVec 64} (hop : ops[i]? = some op) (hmask : masks[i]? = some mask)
    (hval : vals[i]? = some val) : (modifyOps ops masks vals)[i]? =
      some { op with isrdmsr := false, msrdata := Mask.overlay mask val op.msrdata } := by
  induction ops generalizing masks vals i with
  | nil => cases hop
  | cons op' ops ih =>
    match masks, vals, i with
    | [], _, i => cases hmask
    | _ :: _, [], i => cases hval
    | _ :: _, _ :: _, 0 =>
      cases hop
      cases hmask
      cases hval
      rfl
    | _ :: masks, _ :: vals, i + 1 => exact ih hop hmask hval

/-- What an operation reads or has to write. -/
def dataAfter (op : BatchOp) (x : BitVec 64) : BitVec 64 := if op.isrdmsr then x else op.msrdata

/-- What a register holds after an operation. -/
def registerAfter (wmask : BitVec 64) (op : BatchOp) (x : BitVec 64) : BitVec 64 :=
  if op.isrdmsr then x else (x &&& ~~~wmask) ||| (op.msrdata &&& wmask)

variable {isBatchEnabled : Bool}

/-- An operation without an error. -/
theorem runOp_success {o : Outcome} {op : BatchOp} (hok : o.err op = 0)
    (registers : Registers) :
    (runOp driverMask isBatchEnabled o registers op).2 =
        { op with err := 0, msrdata := dataAfter op (registers op.address) } ∧
      (runOp driverMask isBatchEnabled o registers op).1 = update registers op.address
        (registerAfter (deviceMask driverMask isBatchEnabled op.msr) op (registers op.address)) := by
  unfold runOp dataAfter registerAfter
  rw [if_neg (by rw [o.performs op hok]; exact Bool.noConfusion)]
  split_ifs with hread
  · exact ⟨by rw [hok], (Function.update_eq_self _ _).symm⟩
  · exact ⟨by rw [hok], rfl⟩

theorem runOp_err (o : Outcome) (registers : Registers) (op : BatchOp) :
    (runOp driverMask isBatchEnabled o registers op).2.err = o.err op := by
  unfold runOp
  split_ifs <;> rfl

/-- The operations of a list without errors, on distinct registers. -/
theorem runOps_success {o : Outcome} {registers : Registers}
    (hnodup : (ops.map BatchOp.address).Nodup)
    (hok : ∀ op ∈ (runOps driverMask isBatchEnabled o registers ops).2, op.err = 0) :
    (∀ a, a ∉ ops.map BatchOp.address →
      (runOps driverMask isBatchEnabled o registers ops).1 a = registers a) ∧
    ∀ (i : ℕ) op, ops[i]? = some op →
      (runOps driverMask isBatchEnabled o registers ops).2[i]? =
          some { op with err := 0, msrdata := dataAfter op (registers op.address) } ∧
        (runOps driverMask isBatchEnabled o registers ops).1 op.address =
          registerAfter (deviceMask driverMask isBatchEnabled op.msr) op (registers op.address) := by
  induction ops generalizing registers with
  | nil => exact ⟨fun _ _ => rfl, fun i op h => nomatch h⟩
  | cons op ops ih =>
    rw [map_cons, nodup_cons] at hnodup
    have herr : o.err op = 0 := by
      rw [← @runOp_err driverMask isBatchEnabled o registers op]
      exact hok _ mem_cons_self
    obtain ⟨hop, hregisters⟩ := @runOp_success driverMask isBatchEnabled _ _ herr registers
    obtain ⟨hother, hops⟩ := @ih (runOp driverMask isBatchEnabled o registers op).1
      hnodup.2 fun op' hop' => hok op' (mem_cons_of_mem _ hop')
    change (∀ a, _ → (runOps driverMask isBatchEnabled o
      (runOp driverMask isBatchEnabled o registers op).1 ops).1 a = _) ∧ ∀ (i : ℕ) (op' : BatchOp), _ →
        ((runOp driverMask isBatchEnabled o registers op).2 :: (runOps driverMask isBatchEnabled o
          (runOp driverMask isBatchEnabled o registers op).1 ops).2)[i]? = _ ∧
        (runOps driverMask isBatchEnabled o
          (runOp driverMask isBatchEnabled o registers op).1 ops).1 op'.address = _
    refine ⟨fun a ha => ?_, fun i op' hi => ?_⟩
    · rw [map_cons, mem_cons, not_or] at ha
      rw [hother a ha.2, hregisters, update_of_ne ha.1]
    · cases i with
      | zero =>
        cases hi
        rw [hother _ hnodup.1, hop, hregisters, update_self]
        exact ⟨rfl, rfl⟩
      | succ i =>
        have hne : op'.address ≠ op.address := fun heq =>
          hnodup.1 (heq ▸ mem_map_of_mem (mem_of_getElem? hi))
        obtain ⟨hget, hafter⟩ := hops i op' hi
        rw [hafter, getElem?_cons_succ, hget, hregisters, update_of_ne hne]
        exact ⟨rfl, rfl⟩

/-- What a register holds after a batch that succeeds. -/
def afterBatch (op : BatchOp) (mask val x : BitVec 64) : BitVec 64 :=
  (registerAfter op.wmask op x &&& ~~~op.wmask) |||
    (Mask.overlay mask val (dataAfter op x) &&& op.wmask)

/-- The batch does what the single writes do, if the operation reads or what it holds is current. -/
theorem afterBatch_eq_iff {op : BatchOp} {mask val x : BitVec 64} (hval : val &&& ~~~mask = 0#64)
    (hmask : mask &&& ~~~op.wmask = 0#64) : afterBatch op mask val x = Mask.overlay mask val x ↔
      (op.isrdmsr = false →
        op.msrdata &&& op.wmask &&& ~~~mask = x &&& op.wmask &&& ~~~mask) := by
  unfold afterBatch registerAfter dataAfter Mask.overlay
  have hvalBit : ∀ (i : ℕ) (hi : i < 64), val[i] = true → mask[i] = true := fun i hi hv => by
    have h := congrArg (fun b : BitVec 64 => b[i]) hval
    simp only [BitVec.getElem_and, BitVec.getElem_not, hv] at h
    simpa using h
  have hmaskBit : ∀ (i : ℕ) (hi : i < 64), mask[i] = true → op.wmask[i] = true := fun i hi hm => by
    have h := congrArg (fun b : BitVec 64 => b[i]) hmask
    simp only [BitVec.getElem_and, BitVec.getElem_not, hm] at h
    simpa using h
  have hbits : ∀ b b' : BitVec 64, b = b' ↔ ∀ (i : ℕ) (hi : i < 64), b[i] = b'[i] := fun b b' =>
    ⟨fun h i hi => by rw [h], fun h => BitVec.eq_of_getElem_eq h⟩
  cases op.isrdmsr with
  | true =>
    refine iff_of_true ((hbits _ _).mpr fun i hi => ?_) fun h => Bool.noConfusion h
    have h := hvalBit i hi
    have h' := hmaskBit i hi
    simp only [if_true, BitVec.getElem_or, BitVec.getElem_and, BitVec.getElem_not]
    revert h h'
    cases mask[i] <;> cases val[i] <;> cases op.wmask[i] <;> cases x[i] <;> simp
  | false =>
    rw [hbits, forall_prop_of_true rfl, hbits]
    refine forall_congr' fun i => forall_congr' fun hi => ?_
    have h := hvalBit i hi
    have h' := hmaskBit i hi
    simp only [Bool.false_eq_true, if_false, BitVec.getElem_or, BitVec.getElem_and,
      BitVec.getElem_not]
    revert h h'
    cases mask[i] <;> cases val[i] <;> cases op.wmask[i] <;> cases x[i] <;>
      cases op.msrdata[i] <;> simp

/-- What a stage does: the operations are run, and if it returns, none has failed. -/
def IsStage (driverMask : BitVec 32 → BitVec 64) (io : Outcome → EStateM Exception Machine Unit) :
    Prop :=
  ∀ o s, wp (io o)
    (fun _ s' => s' = runBatch driverMask o s ∧ ∀ op ∈ s'.msrio.writeBatchOp, op.err = 0)
    (fun _ s' => s' = runBatch driverMask o s) s

theorem noErr_of_find? (h : ops.find? (·.err ≠ 0) = none) :
    ∀ op ∈ ops, op.err = 0 := by
  intro op hop
  have hnone := find?_eq_none.mp h op hop
  simpa using hnone

theorem msrIoctl_isStage : IsStage driverMask (msrIoctl driverMask) := by
  intro o s
  unfold msrIoctl
  rw [wp_bind, wp_modify, wp_bind, wp_get, wp_ite]
  refine ⟨fun _ => rfl, fun _ => ?_⟩
  split
  · exact rfl
  · rename_i hnone
    exact ⟨rfl, noErr_of_find? hnone⟩

theorem msrBatchIo_isStage : IsStage driverMask (msrBatchIo driverMask) := by
  intro o s
  unfold msrBatchIo
  rw [wp_bind, wp_modify, wp_bind, wp_get, wp_ite]
  refine ⟨fun _ => rfl, fun _ => ?_⟩
  split
  · exact rfl
  · rename_i hnone
    exact ⟨rfl, noErr_of_find? hnone⟩

/-- A batch leaves registers and operations. -/
def BatchEnds (s s' : Machine) : Prop :=
  ∃ registers ops, s' = s.withOps registers ops ∧ List.Forall₂ SameOp s.msrio.writeBatchOp ops

theorem SameOp.trans {op op' op'' : BatchOp} (h : SameOp op op') (h' : SameOp op' op'') :
    SameOp op op'' :=
  ⟨h'.cpu.trans h.cpu, h'.msr.trans h.msr, h'.wmask.trans h.wmask⟩

theorem forall₂_sameOp_trans {ops ops' ops'' : List BatchOp} (h : List.Forall₂ SameOp ops ops')
    (h' : List.Forall₂ SameOp ops' ops'') : List.Forall₂ SameOp ops ops'' := by
  induction h generalizing ops'' with
  | nil => exact h'
  | cons hop _ ih =>
    cases h' with
    | cons hop' hops' => exact List.Forall₂.cons (hop.trans hop') (ih hops')

/-- Every batch keeps the registers and the masks of the operations, and leaves the rest as it
is. -/
theorem wp_readModifyWrite_ends {io : Outcome → EStateM Exception Machine Unit}
    (hio : IsStage driverMask io) (first second : Outcome) :
    wp (readModifyWrite io first second) (fun _ => BatchEnds s) (fun _ => BatchEnds s) s := by
  have hrun : ∀ o t, BatchEnds s t → BatchEnds s (runBatch driverMask o t) := by
    rintro o t ⟨registers, ops, rfl, hsame⟩
    exact ⟨_, _, rfl, forall₂_sameOp_trans hsame (runOps_same _ o registers ops)⟩
  unfold readModifyWrite
  rw [wp_bind]
  have hself : BatchEnds s s :=
    ⟨s.registers, s.msrio.writeBatchOp, rfl, forall₂_same.mpr fun _ _ => ⟨rfl, rfl, rfl⟩⟩
  refine wp_mono (hio first s) ?_ fun _ s' hs' => hs' ▸ hrun first s hself
  rintro - s₁ ⟨rfl, -⟩
  obtain ⟨registers, ops, hs₁, hsame⟩ := hrun first s hself
  rw [wp_bind, wp_modify, wp_bind, hs₁]
  have hmodified : BatchEnds s (s.withOps registers (modifyOps ops s.msrio.writeMask
      s.msrio.writeVal)) :=
    ⟨_, _, rfl, forall₂_sameOp_trans hsame (modifyOps_same _ _ _)⟩
  refine wp_mono (hio second _) ?_ fun _ s' hs' => hs' ▸ hrun second _ hmodified
  rintro - s₂ ⟨rfl, -⟩
  obtain ⟨registers, ops, hs₂, hsame⟩ := hrun second _ hmodified
  rw [wp_modify]
  refine ⟨registers, ops.map fun op => { op with isrdmsr := true }, ?_, ?_⟩
  · exact congrArg readAgain hs₂
  · refine forall₂_sameOp_trans hsame ?_
    rw [forall₂_map_right_iff]
    exact forall₂_same.mpr fun _ _ => ⟨rfl, rfl, rfl⟩

theorem Inv.clear (h : Inv driverMask s) : Inv driverMask s.clear := by
  have hslot : ∀ {i a op mask val}, s.clear.Slot i a op mask val →
      mask = 0#64 ∧ val = 0#64 ∧ ∃ m v, s.Slot i a op m v := by
    rintro i a op mask val ⟨h₁, h₂, h₃, h₄⟩
    change (s.msrio.writeMask.map fun _ => 0#64)[i]? = some mask at h₃
    change (s.msrio.writeVal.map fun _ => 0#64)[i]? = some val at h₄
    rw [getElem?_map, Option.map_eq_some_iff] at h₃ h₄
    obtain ⟨m, hm, rfl⟩ := h₃
    obtain ⟨v, hv, rfl⟩ := h₄
    exact ⟨rfl, rfl, m, v, h₁, h₂, hm, hv⟩
  refine { ops := h.ops, masks := ?_, vals := ?_, nodup := h.nodup, cpus := h.cpus,
           added := h.added, cached := h.cached, opOf := ?_, within := ?_, pending := ?_ }
  · exact (length_map _).trans h.masks
  · exact (length_map _).trans h.vals
  · intro i a op mask val hcleared
    obtain ⟨-, -, m, v, hs⟩ := hslot hcleared
    exact h.opOf hs
  · intro i a op mask val hcleared
    obtain ⟨rfl, rfl, -⟩ := hslot hcleared
    exact ⟨BitVec.zero_and, BitVec.zero_and⟩
  · intro registers
    refine ⟨registers, rfl, fun _ _ => rfl, fun hcleared => ?_⟩
    obtain ⟨rfl, rfl, -⟩ := hslot hcleared
    exact Mask.overlay_zero.symm

/-- What `write_batch` does, apart from the checks. -/
theorem wp_writeBatch {first second : Outcome} {Q : Unit → Machine → Prop}
    {E : Exception → Machine → Prop} (hempty : s.msrio.writeBatchOp = [] → Q () s.clear)
    (hsize : ∀ e, E e s)
    (hrun : ∀ io, IsStage driverMask io →
      wp (readModifyWrite io first second) (fun _ s' => Q () s'.clear) E s) :
    wp (writeBatch driverMask first second) Q E s := by
  unfold writeBatch
  rw [wp_bind, wp_get, wp_bind]
  change wp _ (fun _ s' => Q () s'.clear) E s
  rw [wp_ite]
  constructor
  · intro _
    unfold msrIoctlWrite
    rw [wp_bind, wp_get, wp_ite, wp_pure, wp_ite, Prog.wp_throw]
    exact ⟨hempty, fun _ => ⟨fun _ => hsize _, fun _ => hrun _ msrIoctl_isStage⟩⟩
  · intro _
    unfold msrRmwFiles
    rw [wp_bind, wp_get, wp_ite, wp_pure]
    exact ⟨hempty, fun _ => hrun _ msrBatchIo_isStage⟩

theorem Inv.writeBatch (h : Inv driverMask s) (first second : Outcome) :
    Inv driverMask (final (Machine.writeBatch driverMask first second) s) := by
  refine (wp_final (P := Inv driverMask)).mp ?_
  refine wp_writeBatch (fun _ => h.clear) (fun _ => h) fun io hio => ?_
  refine wp_mono (wp_readModifyWrite_ends hio first second) ?_ ?_
  · rintro - s' ⟨registers, ops, rfl, hsame⟩
    exact (h.withOps registers hsame).clear
  · rintro - s' ⟨registers, ops, rfl, hsame⟩
    exact h.withOps registers hsame

theorem Inv.next (h : Inv driverMask s) (c : Call) : Inv driverMask (next driverMask s c) := by
  cases c with
  | addWrite cpuIdx offset reads => exact h.addWrite cpuIdx offset reads
  | adjust batchIdx rawValue writeMask => exact h.adjust batchIdx rawValue writeMask
  | writeBatch first second => exact h.writeBatch first second
  | others registers => exact { h with }

/-! ### Batches that succeed -/

theorem OpOf.address_eq {a : Address} {op : BatchOp}
    (h : OpOf driverMask isBatchEnabled a op) (hcpu : a.1 < 2 ^ 16) (hmsr : a.2.toNat < 2 ^ 32) :
    op.address = a := by
  refine Prod.ext ?_ (BitVec.eq_of_toNat_eq ?_)
  · change op.cpu.toNat = a.1
    rw [h.cpu, BitVec.toNat_ofNat, Nat.mod_eq_of_lt hcpu]
  · change (op.msr.setWidth 64).toNat = a.2.toNat
    rw [h.msr, BitVec.toNat_setWidth, BitVec.toNat_setWidth, Nat.mod_eq_of_lt hmsr,
      Nat.mod_eq_of_lt a.2.isLt]

theorem Inv.map_address (h : Inv driverMask s) (hfits : s.Fits) :
    s.msrio.writeBatchOp.map BatchOp.address = s.slots := by
  refine ext_getElem? fun i => ?_
  rw [getElem?_map]
  cases hi : s.slots[i]? with
  | none =>
    rw [List.getElem?_eq_none_iff] at hi
    rw [List.getElem?_eq_none_iff.mpr (h.ops.symm ▸ hi)]
    rfl
  | some a =>
    obtain ⟨op, mask, val, hslot⟩ := h.exists_slot hi
    obtain ⟨hcpu, hmsr⟩ := hfits a (mem_of_getElem? hi)
    rw [hslot.op, Option.map_some, (h.opOf hslot).address_eq hcpu hmsr]

theorem wp_readModifyWrite_registers (h : Inv driverMask s) (hfits : s.Fits)
    {io : Outcome → EStateM Exception Machine Unit} (hio : IsStage driverMask io)
    (first second : Outcome) :
    wp (readModifyWrite io first second)
      (fun _ s' => (∀ a, a ∉ s.slots → s'.registers a = s.registers a) ∧
        ∀ {i a op mask val}, s.Slot i a op mask val →
          s'.registers a = afterBatch op mask val (s.registers a))
      (fun _ _ => True) s := by
  unfold readModifyWrite
  rw [wp_bind]
  refine wp_mono (hio first s) ?_ fun _ _ _ => trivial
  rintro - _ ⟨rfl, hok⟩
  have haddress := h.map_address hfits
  obtain ⟨hother, hops⟩ := runOps_success (haddress ▸ h.nodup) hok
  rw [wp_bind, wp_modify, wp_bind]
  refine wp_mono (hio second _) ?_ fun _ _ _ => trivial
  rintro - _ ⟨rfl, hok'⟩
  -- the second stage writes the operations that have been modified
  have hinv := h.withOps (runOps driverMask s.msrio.isBatchEnabled first s.registers
    s.msrio.writeBatchOp).1 (forall₂_sameOp_trans
      (@runOps_same driverMask s.msrio.isBatchEnabled first s.registers
        s.msrio.writeBatchOp)
      (modifyOps_same _ s.msrio.writeMask s.msrio.writeVal))
  have haddress' := hinv.map_address hfits
  obtain ⟨hother', hops'⟩ := runOps_success (haddress' ▸ hinv.nodup) hok'
  refine ⟨fun a ha => ?_, fun {i a op mask val} hslot => ?_⟩
  · refine (hother' a (haddress'.symm ▸ ha)).trans (hother a (haddress.symm ▸ ha))
  · obtain ⟨hcpu, hmsr⟩ := hfits a (mem_of_getElem? hslot.address)
    have ha : op.address = a := (h.opOf hslot).address_eq hcpu hmsr
    obtain ⟨hread, hregister⟩ := hops i op hslot.op
    obtain ⟨-, hregister'⟩ := hops' i _ (modifyOps_getElem? hread hslot.mask hslot.val)
    refine (congrArg _ ha.symm).trans (hregister'.trans ?_)
    change ((runOps driverMask s.msrio.isBatchEnabled first s.registers s.msrio.writeBatchOp).1
      op.address &&& ~~~deviceMask driverMask s.msrio.isBatchEnabled op.msr) |||
      (Mask.overlay mask val (dataAfter op (s.registers op.address)) &&&
        deviceMask driverMask s.msrio.isBatchEnabled op.msr) = _
    rw [hregister, ← (h.opOf hslot).wmask, ha]
    rfl

theorem writeBatch_registers (h : Inv driverMask s) (hfits : s.Fits) {first second : Outcome}
    {s' : Machine} (hok : Machine.writeBatch driverMask first second s = .ok () s') :
    (∀ a, a ∉ s.slots → s'.registers a = s.registers a) ∧
      ∀ {i a op mask val}, s.Slot i a op mask val →
        s'.registers a = afterBatch op mask val (s.registers a) := by
  have hwp : wp (Machine.writeBatch driverMask first second)
      (fun _ s' => (∀ a, a ∉ s.slots → s'.registers a = s.registers a) ∧
        ∀ {i a op mask val}, s.Slot i a op mask val →
          s'.registers a = afterBatch op mask val (s.registers a)) (fun _ _ => True) s := by
    refine wp_writeBatch (fun hempty => ⟨fun _ _ => rfl, fun hslot => ?_⟩) (fun _ => trivial)
      fun io hio => wp_readModifyWrite_registers h hfits hio first second
    have hop := hslot.op
    rw [hempty] at hop
    cases hop
  unfold wp at hwp
  rw [hok] at hwp
  exact hwp

theorem inv_of_reachable {numCpu : ℕ} {registers : Registers}
    (hs : (Lts.ofFun (next driverMask)).Reachable (start numCpu isBatchEnabled registers) s) :
    Inv driverMask s := by
  refine Lts.ReachableIf.invariant hs (inv_start numCpu isBatchEnabled registers) ?_
  rintro s c _ hinv - rfl
  exact hinv.next c

/-- In every run, a batch that succeeds does what the single writes of the adjustments do since the
last such batch, just when its operations are current. -/
theorem writeBatch_eq_writeMsr {numCpu : ℕ} {isBatchEnabled : Bool} {registers : Registers}
    (hs : (Lts.ofFun (next driverMask)).Reachable (start numCpu isBatchEnabled registers) s)
    (hfits : s.Fits) {first second : Outcome} {s' : Machine}
    (hok : writeBatch driverMask first second s = .ok () s') :
    writeMsrs s.msrio.numCpu s.since s.registers = .ok s'.registers ↔ s.Current := by
  have h := inv_of_reachable hs
  obtain ⟨hother, hslots⟩ := writeBatch_registers h hfits hok
  obtain ⟨result, hresult, hsame, hpending⟩ := h.pending s.registers
  rw [hresult, Except.ok.injEq]
  constructor
  · rintro rfl i a op mask val hslot
    obtain ⟨hval, hmask⟩ := h.within hslot
    exact (afterBatch_eq_iff hval hmask).mp ((hslots hslot).symm.trans (hpending hslot))
  · intro hcurrent
    funext a
    by_cases ha : a ∈ s.slots
    · obtain ⟨i, hi⟩ := mem_iff_getElem?.mp ha
      obtain ⟨op, mask, val, hslot⟩ := h.exists_slot hi
      obtain ⟨hval, hmask⟩ := h.within hslot
      rw [hpending hslot, hslots hslot, (afterBatch_eq_iff hval hmask).mpr (hcurrent hslot)]
    · rw [hsame a ha, hother a ha]

theorem current_of_reads (h : ∀ op ∈ s.msrio.writeBatchOp, op.isrdmsr = true) : s.Current := by
  intro i a op mask val hslot hwrites
  exact absurd ((h op (mem_of_getElem? hslot.op)).symm.trans hwrites) Bool.noConfusion

end Runs

/-- All operations are performed. -/
def allPerformed : Outcome := ⟨0, fun _ => 0, fun _ => true, fun _ _ => rfl⟩

/-- No operation is performed. -/
def nonePerformed : Outcome := ⟨0, fun _ => 5, fun _ => false, fun _ h => nomatch h⟩

/-- A register is added, and one bit of it is adjusted. -/
def oneBit : List Call := [.addWrite 0 0x10#64 true, .adjust 0 1 1]

/-- The file of the register, and the file after the calls. -/
def afterCalls (calls : List Call) : Machine :=
  calls.foldl (next fun _ => 0) (start 1 false fun _ => 0xf0#64)

theorem writeBatch_eq_writeMsr_oneBit :
    writeMsrs 1 (afterCalls oneBit).since (afterCalls oneBit).registers = .ok
      (final (writeBatch (fun _ => 0) allPerformed allPerformed)
        (afterCalls oneBit)).registers := by
  have hslots : (afterCalls oneBit).slots = [(0, 0x10#64)] := rfl
  have hops : (afterCalls oneBit).msrio.writeBatchOp =
      [⟨0, true, 0, 0x10, 0, BitVec.allOnes 64⟩] := rfl
  have hok : writeBatch (fun _ => 0) allPerformed allPerformed (afterCalls oneBit) =
      .ok () (final (writeBatch (fun _ => 0) allPerformed allPerformed) (afterCalls oneBit)) :=
    rfl
  have hrun : (Lts.ofFun (next fun _ => 0)).Reachable (start 1 false fun _ => 0xf0#64)
      (afterCalls oneBit) := Lts.reachable_foldl _ oneBit
  refine (writeBatch_eq_writeMsr hrun ?_ hok).mpr (current_of_reads ?_)
  · intro a ha
    rw [hslots, mem_singleton] at ha
    rw [ha]
    decide
  · intro op hop
    rw [hops, mem_singleton] at hop
    rw [hop]

/-- The second stage of a batch fails, the register changes, and the next batch writes what the
register held before. -/
theorem stale_operation :
    let s := afterCalls (oneBit ++ [.writeBatch allPerformed nonePerformed, .others fun _ => 0xe0#64])
    writeBatch (fun _ => 0) allPerformed allPerformed s =
        .ok () (final (writeBatch (fun _ => 0) allPerformed allPerformed) s) ∧
      writeMsrs 1 s.since s.registers ≠
        .ok (final (writeBatch (fun _ => 0) allPerformed allPerformed) s).registers := by
  refine ⟨rfl, fun h => ?_⟩
  have happly := congrArg (fun r : Except Exception Registers =>
    match r with
    | .ok registers => registers (0, 0x10#64)
    | .error _ => 0) h
  revert happly
  decide

end Machine

end Geopm.Pio
