import Geopm.Pio.SaveControl

/-!
# `SysfsIOGroup`

The controls of a `SysfsIOGroup` are files.  A control that has been pushed is a slot, with the file
held open and the last value it has been adjusted to; a batch writes the slots whose value has
changed since they have been written, and tries those that fail once more.

* `SysfsDriver` : the driver, which gives the files, and the texts of the values;
* `SysfsIOGroup`, `Sysfs` : the members of the object; the object with the files;
* `Sysfs.pushControl`, `adjust`, `writeBatch`, `writeControl`, `saveControl`, `restoreControl` : its
  methods.
-/

namespace Geopm.Pio

open Prog

/-! ### The driver and the files -/

/-- `SysfsDriver::M_IO_BUFFER_SIZE`. -/
def ioBufferSize : ℕ := 128

/-- `SysfsDriver::properties_s`. -/
structure SysfsProperties where
  name : String
  isWritable : Bool
  aliasName : String

/-- `SysfsDriver::derived_signal_info_s`: the name of the signal, and that of its source. -/
structure DerivedSignalInfo where
  name : String
  sourceSignal : String

/-- A `SysfsDriver`, and the topology.  Maps are in the order of their keys. -/
structure SysfsDriver where
  driver : String
  properties : List SysfsProperties
  derivedSignals : List (String × DerivedSignalInfo) := []
  domainType : String → ℤ
  attributePath : String → ℤ → Except Exception String
  signalParse : String → String → Double
  controlGen : String → Double → Except Exception String
  numDomain : ℤ → ℤ
  domainTypeToName : ℤ → String

/-- A file, and what the process may do with it. -/
structure SysfsFile where
  contents : String
  isReadable : Bool := true
  isWritable : Bool := true

/-- What a `pwrite` returns: an error, or how many bytes have been written. -/
inductive WriteResult where
  | failed (errno : ℤ)
  | wrote (bytes : ℕ)
deriving DecidableEq

namespace WriteResult

/-- Whether it is negative. -/
def isFailed : WriteResult → Bool
  | failed _ => true
  | wrote _ => false

/-- A write fails, or takes the whole of a buffer. -/
def Whole (r : WriteResult) : Prop := ∀ bytes, r = wrote bytes → ioBufferSize ≤ bytes

end WriteResult

/-- The first bytes of a text. -/
def firstBytes (text : String) (nbytes : ℕ) : String := String.ofList (text.toList.take nbytes)

/-- `pwrite` of the first bytes of a buffer, at the offset zero. -/
def pwrite (path text : String) (nbytes : ℕ) (r : WriteResult) (files : String → SysfsFile) :
    String → SysfsFile :=
  match r with
  | .failed _ => files
  | .wrote bytes => Function.update files path
      ⟨firstBytes text (min bytes nbytes), (files path).isReadable, (files path).isWritable⟩

/-! ### The object -/

/-- `m_pushed_info_s`, for a control.  The file descriptor is the path it has been opened with. -/
structure PushedInfo where
  fd : String
  name : String
  domainType : ℤ
  domainIdx : ℤ
  value : Double := .nan
  doWrite : Bool := false
  lastIoReturn : WriteResult := .wrote 0
  buf : String := ""
  gen : Double → Except Exception String

namespace PushedInfo

/-- Adjust a slot: `info.value != setting` tells whether it is marked. -/
def adjusted (setting : Double) (info : PushedInfo) : PushedInfo :=
  if info.value.eq setting then info else { info with doWrite := true, value := setting }

/-- Whether a batch writes the slot: `info.do_write && !std::isnan(info.value)`. -/
def isPending (info : PushedInfo) : Bool := info.doWrite && !info.value.isNan

/-- The second loop of `write_batch_retry` on a slot. -/
def collected (info : PushedInfo) : PushedInfo :=
  if info.isPending && !info.lastIoReturn.isFailed then { info with doWrite := false } else info

end PushedInfo

/-- An operation of `prep_write`, which refers to the members of a slot. -/
structure WriteOp where
  info : ℕ
  nbytes : ℕ
deriving DecidableEq

/-- An `IOUring` that has been made for a number of entries, with the operations in its queue. -/
structure BatchWriter where
  entries : ℕ
  operations : List WriteOp

/-- The members of `SysfsIOGroup`.  The maps give the canonical names. -/
structure SysfsIOGroup where
  signals : List (String × String)
  controls : List (String × String)
  isBatchWrite : Bool := false
  doBatchWrite : Bool := false
  pushedInfoControl : List PushedInfo := []
  controlSaver : Option SaveControl := none
  unsavedControls : List String := []
  batchWriter : Option BatchWriter := none

/-- The object, the files of sysfs, and the files of saved controls.  The history is what has been
adjusted since the last batch that succeeded. -/
structure Sysfs where
  group : SysfsIOGroup
  files : String → SysfsFile
  savedFiles : String → Option String := fun _ => none
  since : List (ℕ × Double) := []

namespace SysfsDriver

variable (d : SysfsDriver) (files : String → SysfsFile)

/-- `do_have_read_access` to an attribute. -/
def haveReadAccess (name : String) (domainIdx : ℤ) : Bool :=
  match d.attributePath name domainIdx with
  | .ok path => (files path).isReadable
  | .error _ => false

/-- `do_have_write_access` to an attribute. -/
def haveWriteAccess (name : String) (domainIdx : ℤ) : Bool :=
  match d.attributePath name domainIdx with
  | .ok path => (files path).isReadable && (files path).isWritable
  | .error _ => false

def isValidSignalDomain (signals : List (String × String)) (signalName : String)
    (domainIdx : ℤ) : Bool :=
  let property := match d.derivedSignals.lookup signalName with
    | some info => signals.lookup info.sourceSignal
    | none => signals.lookup signalName
  match property with
  | some name => d.haveReadAccess files name domainIdx
  | none => false

def tryEmplace (key value : String) (m : List (String × String)) : List (String × String) :=
  match m.lookup key with
  | some _ => m
  | none => m.orderedInsert (fun a b => a.1 ≤ b.1) (key, value)

/-- Add the aliases of the names that are accessible. -/
def addAliases (names : List String) (m : List (String × String)) : List (String × String) :=
  names.foldl (fun m name =>
    match d.properties.find? fun p => p.name = name with
    | some p => if p.aliasName = "" then m else tryEmplace p.aliasName p.name m
    | none => m) m

/-- The names of the controls that may be written. -/
def controlNames (controls : List (String × String)) : List String :=
  (controls.filter fun e => d.haveWriteAccess files e.2 0).map Prod.fst

/-- `SysfsIOGroup::SysfsIOGroup`. -/
def group : SysfsIOGroup :=
  let signals := d.properties.map fun p => (p.name, p.name)
  let controls := (d.properties.filter (·.isWritable)).map fun p => (p.name, p.name)
  let isReadable := fun e : String × String => d.haveReadAccess files e.2 0 ||
    ((d.derivedSignals.lookup e.1).isSome && d.isValidSignalDomain files signals e.1 0)
  let signalNames := (signals.filter isReadable).map Prod.fst
  { signals := d.addAliases signalNames signals
    controls := d.addAliases (d.controlNames files controls) controls }

/-- The object when it has been constructed. -/
def start : Sysfs := { group := d.group files, files := files }

end SysfsDriver

namespace Sysfs

/-! ### The methods -/

section Methods

variable (d : SysfsDriver)

/-- `canonical_name`; `map::at` raises if there is none. -/
def canonicalName (name : String) (s : Sysfs) : Except Exception String :=
  match d.derivedSignals.lookup name with
  | some info => .ok info.name
  | none =>
    match s.group.signals.lookup name with
    | some cname => .ok cname
    | none => .error ⟨"map::at", [], .runtime⟩

def isValidControlDomain (controlName : String) (domainIdx : ℤ) (s : Sysfs) : Bool :=
  match s.group.controls.lookup controlName with
  | some name => d.haveWriteAccess s.files name domainIdx
  | none => false

def checkRequest (methodName : String) (isSignal : Bool) (t : Request) (s : Sysfs) :
    Except Exception String := do
  if isSignal then
    if d.isValidSignalDomain s.files s.group.signals t.name t.domainIdx = false then
      throw ⟨"SysfsIOGroup::" ++ methodName ++ "(): \"" ++ t.name ++ "\"not valid for ", [],
        .invalid⟩
  else
    if isValidControlDomain d t.name t.domainIdx s = false then
      throw ⟨"SysfsIOGroup::" ++ methodName ++ "(): \"" ++ t.name ++ "\" not valid for " ++
        d.driver, [], .invalid⟩
  let cname ← canonicalName d t.name s
  if t.domainType ≠ d.domainType cname then
    throw ⟨"SysfsIOGroup::" ++ methodName ++ "(): domain_type must be " ++
      d.domainTypeToName (d.domainType cname) ++ ".", [], .invalid⟩
  if t.domainIdx < 0 ∨ d.numDomain t.domainType ≤ t.domainIdx then
    throw ⟨"SysfsIOGroup::" ++ methodName ++ "(): domain_idx out of range.", [], .invalid⟩
  if (methodName = "write_control" ∨ methodName = "push_control") ∧
      cname ∈ s.group.unsavedControls then
    throw ⟨"SysfsIOGroup::" ++ methodName ++ "(): Cannot write control setting which could not " ++
      "be read.", [], .runtime⟩
  pure cname

/-- `open_resource_attribute`; the error is `EACCES`. -/
def openResourceAttribute (path : String) (isAllowed : SysfsFile → Bool) (s : Sysfs) :
    Except Exception String :=
  if isAllowed (s.files path) then .ok path
  else .error ⟨"open_resource_attribute() failed to open " ++ path, [], .errno 13⟩

/-- The canonical name of a control that may be written, and the file opened for it. -/
def openControl (methodName : String) (t : Request) (s : Sysfs) :
    Except Exception (String × String) := do
  let cname ← checkRequest d methodName false t s
  let path ← d.attributePath cname t.domainIdx
  let fd ← openResourceAttribute path (·.isWritable) s
  pure (cname, fd)

/-- The position of the slot of a request. -/
def findPushed (t : Request) (infos : List PushedInfo) : Option ℕ :=
  infos.findIdx? fun info => info.name = t.name ∧ info.domainIdx = t.domainIdx

def pushControl (t : Request) : EStateM Exception Sysfs ℕ := do
  let s ← get
  if s.group.isBatchWrite then
    throw ⟨"SysfsIOGroup::push_control(): Cannot push control " ++ t.name ++
      "because batch writes have already been triggered.", [], .invalid⟩
  let cname ← ret (checkRequest d "push_control" false t s)
  match findPushed t s.group.pushedInfoControl with
  | some controlIdx =>
    set { s with group := { s.group with doBatchWrite := true } }
    pure controlIdx
  | none =>
    let path ← ret (d.attributePath cname t.domainIdx)
    let fd ← ret (openResourceAttribute path (·.isWritable) s)
    let info : PushedInfo :=
      { fd := fd, name := t.name, domainType := t.domainType, domainIdx := t.domainIdx
        gen := d.controlGen cname }
    set { s with group := { s.group with
      doBatchWrite := true, pushedInfoControl := s.group.pushedInfoControl ++ [info] } }
    pure s.group.pushedInfoControl.length

/-- `adjust`. -/
def adjust (batchIdx : ℤ) (setting : Double) : EStateM Exception Sysfs Unit := do
  let s ← get
  if batchIdx < 0 ∨ (s.group.pushedInfoControl.length : ℤ) ≤ batchIdx then
    throw ⟨"SysfsIOGroup::adjust(): batch_idx out of range.", [], .invalid⟩
  set { s with
    group := { s.group with pushedInfoControl :=
      s.group.pushedInfoControl.modify batchIdx.toNat (PushedInfo.adjusted setting) }
    since := s.since ++ [(batchIdx.toNat, setting)] }

/-! #### Batches -/

/-- The slots and the queue, and what has been raised. -/
structure Prepared where
  infos : List PushedInfo
  operations : List WriteOp
  error : Option Exception

/-- The first loop of `write_batch_retry`, from the slot with the number `i` on; `capacity` bounds
the length of the queue. -/
def prepWrites (capacity : Option ℕ) : ℕ → List PushedInfo → List WriteOp → Prepared
  | _, [], ops => ⟨[], ops, none⟩
  | i, info :: infos, ops =>
    if info.isPending then
      match info.gen info.value with
      | .error e => ⟨info :: infos, ops, some e⟩
      | .ok setting =>
        if ioBufferSize ≤ setting.length then
          ⟨info :: infos, ops, some ⟨"SysfsIOGroup control value is too long", [], .runtime⟩⟩
        else if ∃ c ∈ capacity, c ≤ ops.length then
          ⟨{ info with buf := setting } :: infos, ops,
            some ⟨"Attempted to add an operation to a full batch queue.", [], .runtime⟩⟩
        else
          let prepared := prepWrites capacity (i + 1) infos (ops ++ [⟨i, setting.length + 1⟩])
          ⟨{ info with buf := setting } :: prepared.infos, prepared.operations, prepared.error⟩
    else
      let prepared := prepWrites capacity (i + 1) infos ops
      ⟨info :: prepared.infos, prepared.operations, prepared.error⟩

/-- Perform an operation, with the position in the queue that tells its result. -/
def perform (result : ℕ → WriteResult) (x : List PushedInfo × (String → SysfsFile))
    (op : WriteOp × ℕ) : List PushedInfo × (String → SysfsFile) :=
  match x.1[op.1.info]? with
  | some info => (x.1.modify op.1.info fun info => { info with lastIoReturn := result op.2 },
      pwrite info.fd info.buf op.1.nbytes (result op.2) x.2)
  | none => x

/-- `submit`: the operations are performed in their order. -/
def submit (result : ℕ → WriteResult) (ops : List WriteOp) (infos : List PushedInfo)
    (files : String → SysfsFile) : List PushedInfo × (String → SysfsFile) :=
  ops.zipIdx.foldl (perform result) (infos, files)

def failedNames (infos : List PushedInfo) : List String :=
  (infos.filter fun info => info.isPending && info.lastIoReturn.isFailed).map (·.name)

/-- What the system answers to a pass: an error of `IOUring::make_unique`, the results of the
operations by their positions in the queue, and the `errno` that is found after a failed one. -/
structure PassAnswers where
  makeError : Option Exception := none
  result : ℕ → WriteResult
  lastErrno : ErrorCode := .runtime

/-- The writer, which is made with an entry for each slot. -/
def makeWriter (answers : PassAnswers) (s : Sysfs) : Except Exception BatchWriter :=
  match s.group.batchWriter with
  | some writer => .ok writer
  | none =>
    match answers.makeError with
    | some e => .error e
    | none => .ok ⟨s.group.pushedInfoControl.length, []⟩

-- how many operations the queue of an `IOUring` with a number of entries has room for
variable (capacity : ℕ → Option ℕ)

def writeBatchRetry (answers : PassAnswers) (isRetry : Bool) : EStateM Exception Sysfs Bool := do
  modify fun s => { s with group := { s.group with isBatchWrite := true } }
  let s ← get
  if s.group.doBatchWrite = false then
    pure false
  else
    let writer ← ret (makeWriter answers s)
    let prepared :=
      prepWrites (capacity writer.entries) 0 s.group.pushedInfoControl writer.operations
    set { s with group := { s.group with
      pushedInfoControl := prepared.infos
      batchWriter := some ⟨writer.entries, prepared.operations⟩ } }
    match prepared.error with
    | some e => throw e
    | none =>
      let (infos, files) := submit answers.result prepared.operations prepared.infos s.files
      set { s with
        group := { s.group with
          pushedInfoControl := infos.map PushedInfo.collected
          batchWriter := some ⟨writer.entries, []⟩ }
        files := files }
      let names := failedNames infos
      if names ≠ [] ∧ isRetry = true then
        throw ⟨"SysfsIOGroup failed to write controls: \"" ++ "\", \"".intercalate names ++ "\"",
          [], answers.lastErrno⟩
      pure (decide (names ≠ []))

/-- What the system answers to the two passes of a batch. -/
structure BatchAnswers where
  first : PassAnswers
  retry : PassAnswers

def writeBatch (answers : BatchAnswers) : EStateM Exception Sysfs Unit := do
  if ← writeBatchRetry capacity answers.first false then
    let _ ← writeBatchRetry capacity answers.retry true
  modify fun s => { s with since := [] }

/-! #### Immediate writes, saving and restoring -/

def writeControl (t : Request) (setting : Double) (r : WriteResult) :
    EStateM Exception Sysfs Unit := do
  let s ← get
  let (cname, fd) ← ret (openControl d "write_control" t s)
  let value ← ret (d.controlGen cname setting)
  set { s with files := pwrite fd value (value.length + 1) r s.files }
  match r with
  | .failed errno =>
    throw ⟨"SysfsIOGroup failed to write control, value: " ++ value, [], .errno errno⟩
  | .wrote bytes =>
    if bytes < value.length + 1 then
      throw ⟨"SysfsIOGroup truncated write control", [], .runtime⟩

/-- `read_signal`.  The value of a derived signal is that of its derivative. -/
def readSignal (derivative : Request → Double) (t : Request) (s : Sysfs) :
    Except Exception Double := do
  let cname ← checkRequest d "read_signal" true t s
  match d.derivedSignals.lookup cname with
  | some _ => pure (derivative t)
  | none =>
    let path ← d.attributePath cname t.domainIdx
    let fd ← openResourceAttribute path (·.isReadable) s
    pure (d.signalParse cname (firstBytes (s.files fd).contents (ioBufferSize - 1)))

/-- The controls that are saved: those with the name of the driver, at all indices. -/
def savedRequests (s : Sysfs) : List Request :=
  ((d.controlNames s.files s.group.controls).filter fun name =>
    (d.driver ++ "::").toList.isPrefixOf name.toList).flatMap fun name =>
      let domainType := match s.group.controls.lookup name with
        | some cname => d.domainType cname
        | none => -1
      (List.range (d.numDomain domainType).toNat).map fun (domIdx : ℕ) =>
        ⟨name, domainType, domIdx⟩

def unsavedControls (saver : SaveControl) (names : List String) : List String :=
  names.filter fun name => !(finiteOf saver.settings).any (·.name == name)

/-- Set the `m_control_saver`. -/
def keepSaver (saver : SaveControl) (s : Sysfs) : Sysfs :=
  { s with group := { s.group with
    controlSaver := some saver
    unsavedControls := unsavedControls saver (d.controlNames s.files s.group.controls) } }

-- the JSON library
variable (json11 : Json11)

/-- `SaveControl::make_unique` of the object, whose reads may fail. -/
def readSaver (readError : Request → Option Exception) (derivative : Request → Double) (s : Sysfs) :
    Except Exception SaveControl := do
  let settings ← (savedRequests d s).mapM fun t =>
    match readError t with
    | some e => .error e
    | none => (readSignal d derivative t s).map fun setting =>
        (⟨t.name, t.domainType, t.domainIdx, setting⟩ : Setting)
  pure (SaveControl.ofSettings json11 settings)

/-- `save_control`, with or without a path. -/
def saveControl (savePath : Option String) (readError : Request → Option Exception)
    (openError : Option Exception) (derivative : Request → Double) :
    EStateM Exception Sysfs Unit := do
  let s ← get
  if d.controlNames s.files s.group.controls ≠ [] then
    let saver ← ret (match s.group.controlSaver with
      | some saver => .ok saver
      | none => readSaver d json11 readError derivative s)
    if s.group.controlSaver.isNone then
      modify (keepSaver d saver)
    match savePath with
    | none => pure ()
    | some path =>
      match openError with
      | some e => throw e
      | none => modify fun s =>
          { s with savedFiles := Function.update s.savedFiles path (some saver.json) }

/-- An attempt of `SaveControlImp::restore` on a setting: whether it is restored. -/
def restoreSetting (result : Request → WriteResult) (x : Setting × Bool) :
    EStateM Exception Sysfs Bool :=
  if x.2 || !x.1.setting.isFinite then pure true
  else tryCatch
    (do writeControl d x.1.request x.1.setting (result x.1.request); pure true)
    fun _ => pure false

/-- A pass of `SaveControlImp::restore` over the settings. -/
def restoreSettings (result : Request → WriteResult) :
    List (Setting × Bool) → EStateM Exception Sysfs (List (Setting × Bool))
  | [] => pure []
  | x :: xs => do
    let isRestored ← restoreSetting d result x
    let rest ← restoreSettings result xs
    pure ((x.1, isRestored) :: rest)

/-- `SaveControlImp::restore`, with the results of the writes in each attempt. -/
def restoreSaver (result : ℕ → Request → WriteResult) (saver : SaveControl) :
    EStateM Exception Sysfs Unit := do
  let first ← restoreSettings d (result 0) (saver.settings.map (·, false))
  let last ← restoreSettings d (result 1) first
  match restoreError ((last.filter fun x => !x.2).map fun x => x.1.name).toFinset with
  | some e => throw e
  | none => pure ()

/-- `restore_control`, with or without a path. -/
def restoreControl (savePath : Option String) (result : ℕ → Request → WriteResult) :
    EStateM Exception Sysfs Unit := do
  let s ← get
  match savePath with
  | none => pure ()
  | some path =>
    if d.controlNames s.files s.group.controls ≠ [] ∧ s.group.controlSaver.isNone then
      match s.savedFiles path with
      | none => throw ⟨"Helper::read_file(): file \"" ++ path ++ "\" could not be opened", [],
          .invalid⟩
      | some text =>
        let saver ← ret (SaveControl.ofText json11 text)
        modify (keepSaver d saver)
  match (← get).group.controlSaver with
  | some saver => restoreSaver d result saver
  | none => pure ()

end Methods

end Sysfs

end Geopm.Pio
