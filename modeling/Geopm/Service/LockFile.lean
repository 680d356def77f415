import Geopm.Lib.Lts
import Geopm.Service.WriteLock

/-!
# The contexts of `WriteLock` and its file

`WriteLock` opens the lock file, holds an advisory lock on it, and reads and writes a PID, where
each call of the system may raise.  What the system answers is an argument of the step.

* `State`, `enter`, `Call.run`, `exit` : the file, the flag of the class and the methods;
* `Explains` : the results are those of a register for each lock name;
* `Released` : the flag is clear, the file is closed and the umask is restored;
* `Context.Sound` : no call raises between setting the flag and clearing it;
* `run_explains` : the results are those of registers in every run;
* `along_released_iff` : every context is released just when each of them is sound;
* `lockf_keeps_flag` : an advisory lock that cannot be taken.
-/

namespace Geopm.LockFile

open Function (update update_self)

/-- A PID. -/
abbrev ProcessId := Fin (2 ^ 31)

/-- A call in the body of a context. -/
inductive Call where
  | tryLock (pid : Option ProcessId)
  | unlock (pid : ProcessId)

/-- What is seen of the lock files: a file or all of them are renamed, a call returns or raises, or
a call of the system fails in a context. -/
inductive Event where
  | renamed (lockName : String)
  | renamedAll
  | call (lockName : String) (c : Call) (result : Except PyErr (Option ℤ))
  | failed (lockName : String)

/-- A file object: the position, and what has been written but not flushed. -/
structure FileObject where
  position : ℕ
  pending : List Char

/-- The lock files, the flag of the class, the mask of the process, `_fid` while it is open, and
what has been seen. -/
structure State where
  files : String → Option (List Char)
  isFileActive : Bool
  umask : ℕ
  fid : Option FileObject
  log : List Event

/-- A method. -/
abbrev Method := EStateM PyErr State

/-- An exception of a call of the system. -/
def osError : PyErr := .osError "OSError"

/-- A call of the system that raises unless it succeeds. -/
def call (succeeds : Bool) : Method Unit := if succeeds then pure ⟨⟩ else throw osError

/-- Note an event. -/
def State.note (e : Event) (s : State) : State := { s with log := s.log ++ [e] }

/-- `os.rename` of the lock file. -/
def rename (lockName : String) : Method Unit :=
  modify fun s => { s with files := update s.files lockName none }.note (.renamed lockName)

/-! ### Entering -/

/-- What `secure_make_dirs` finds: a secure directory, one that is renamed, or none; `made` says
whether a new one can be made. -/
inductive DirAnswer where
  | secure
  | renamed (made : Bool)
  | missing (made : Bool)
  | raises

/-- The constructor makes or finds the directory. -/
def DirAnswer.Made : DirAnswer → Prop
  | .secure => True
  | .renamed made => made = true
  | .missing made => made = true
  | .raises => False

/-- What a check of a file says. -/
inductive FileAnswer where
  | secure
  | renamed
  | raises
deriving DecidableEq

/-- An attempt to open the file; `closed` is none, or how much of what is pending is written before
closing raises. -/
structure OpenAnswer where
  path : FileAnswer := .secure
  opened : Bool := true
  file : FileAnswer := .secure
  closed : Option ℕ := none

def secureMakeDirs : DirAnswer → Method Unit
  | .secure => pure ⟨⟩
  | .renamed made => do
    modify fun s => { s with files := fun _ => none }.note .renamedAll
    call made
  | .missing made => do
    let oldMask := (← get).umask
    modify fun s => { s with files := fun _ => none, umask := 0o066 }.note .renamedAll
    tryFinally (call made) (modify fun s => { s with umask := oldMask })
  | .raises => throw osError

/-- `is_secure_path` of a path that exists. -/
def isSecurePath (lockName : String) : FileAnswer → Method Unit
  | .secure => pure ⟨⟩
  | .renamed => rename lockName
  | .raises => throw osError

def isSecureFile (lockName : String) : FileAnswer → Method Bool
  | .secure => pure true
  | .renamed => do
    rename lockName
    pure false
  | .raises => throw osError

/-- `open(path, 'a+')`, which creates the file and leaves the position at its end. -/
def openFile (lockName : String) (opened : Bool) : Method Unit := do
  call opened
  modify fun s =>
    let contents := (s.files lockName).getD []
    { s with
      files := update s.files lockName (some contents)
      fid := some ⟨contents.length, []⟩ }

/-- Write what is pending to the end of the file; `some k` stops after `k` characters. -/
def FileObject.flushed (f : FileObject) (contents : List Char) : Option ℕ → List Char × FileObject
  | none => (contents ++ f.pending, ⟨contents.length + f.pending.length, []⟩)
  | some k => (contents ++ f.pending.take k, ⟨contents.length + k, f.pending.drop k⟩)

/-- `fid.flush()`. -/
def flush (lockName : String) (answer : Option ℕ) : Method Unit := do
  modify fun s =>
    match s.fid with
    | some f =>
      if f.pending.isEmpty then s
      else
        let (contents, f) := f.flushed ((s.files lockName).getD []) answer
        { s with files := update s.files lockName (some contents), fid := some f }
    | none => s
  call answer.isNone

/-- `fid.close()`, which closes the file also when flushing raises. -/
def close (lockName : String) (answer : Option ℕ) : Method Unit :=
  tryFinally (flush lockName answer) (modify fun s => { s with fid := none })

/-- `WriteLock._rpc_lock`. -/
def rpcLock : Method Unit := do
  if (← get).isFileActive then
    throw (.runtimeError
      "Attempt to modify control lock file while file lock is held by the same process")
  else modify fun s => { s with isFileActive := true }

/-- `WriteLock._rpc_unlock`. -/
def rpcUnlock : Method Unit := do
  if !(← get).isFileActive then throw (.runtimeError "Unlock failed, file is not active")
  else modify fun s => { s with isFileActive := false }

/-- An insecure file is closed. -/
def closeInsecure (lockName : String) (answer : Option ℕ) (isSecure : Bool) : Method Unit :=
  if !isSecure then close lockName answer else pure ⟨⟩

/-- An existing path is checked before it is opened. -/
def checkExisting (lockName : String) (answer : FileAnswer) : Method Unit := do
  if ((← get).files lockName).isSome then isSecurePath lockName answer else pure ⟨⟩

/-- A round of the loop in `__enter__`. -/
def tryOpen (lockName : String) (answer : OpenAnswer) : Method Unit := do
  checkExisting lockName answer.path
  openFile lockName answer.opened
  let isSecure ← isSecureFile lockName answer.file
  closeInsecure lockName answer.closed isSecure

/-- The loop in `__enter__`, which ends when a file is open. -/
def openLoop (lockName : String) : List OpenAnswer → Method Unit
  | [] => pure ⟨⟩
  | answer :: answers => do
    if (← get).fid.isNone then
      tryOpen lockName answer
      openLoop lockName answers
    else pure ⟨⟩

/-- Only a file that was opened securely is locked. -/
def lockOpened (lock : Bool) : Method Unit := do
  if (← get).fid.isNone then
    rpcUnlock
    throw (.runtimeError "Unable to open write lock securely after two tries")
  else
    call lock
    modify fun s => { s with fid := s.fid.map fun f => { f with position := 0 } }

/-- `WriteLock.__enter__`. -/
def enter (lockName : String) (first second : OpenAnswer) (lock : Bool) : Method Unit := do
  rpcLock
  let oldMask := (← get).umask
  modify fun s => { s with umask := 0o077 }
  tryFinally (openLoop lockName [first, second]) (modify fun s => { s with umask := oldMask })
  lockOpened lock

/-! ### The register in the file -/

/-- What the calls of the system in `try_lock` and `unlock` do. -/
structure CallAnswer where
  read : Bool := true
  truncate : Bool := true
  write : Bool := true
  flush : Option ℕ := none

/-- The line that is read from a text, up to a number of characters. -/
def readline (n : ℕ) (text : List Char) : List Char :=
  let line := text.takeWhile (· ≠ '\n')
  (if line.length < text.length then line ++ ['\n'] else line).take n

/-- `WriteLock._read`.  Nothing is pending when it is called. -/
def read (lockName : String) (answer : CallAnswer) : Method (List Char) := do
  match (← get).fid with
  | none => throw (.runtimeError "The WriteLock object must be used within a context manager")
  | some f =>
    call answer.read
    let contents := readline 64 ((((← get).files lockName).getD []).drop f.position)
    modify fun s => { s with fid := some { f with position := 0 } }
    return contents

/-- `fid.truncate(0)`, which keeps the position. -/
def truncate (lockName : String) (answer : CallAnswer) : Method Unit := do
  call answer.truncate
  modify fun s => { s with files := update s.files lockName (some []) }

/-- `WriteLock._write`. -/
def write (lockName : String) (pid : ProcessId) (answer : CallAnswer) : Method Unit := do
  truncate lockName answer
  call answer.write
  modify fun s =>
    { s with fid := s.fid.map fun f => { f with pending := f.pending ++ Nat.toDigits 10 pid } }
  flush lockName answer.flush
  modify fun s => { s with fid := s.fid.map fun f => { f with position := 0 } }

/-- `int(contents)`. -/
def toInt (contents : List Char) : Method ℤ :=
  match pyInt? (String.ofList contents) with
  | some pid => pure pid
  | none => throw (.valueError "invalid literal for int() with base 10")

/-- `WriteLock.try_lock`. -/
def tryLock (lockName : String) (pid : Option ProcessId) (answer : CallAnswer) :
    Method (Option ℤ) := do
  let contents ← read lockName answer
  if contents.isEmpty then
    match pid with
    | some pid => do
      write lockName pid answer
      return some (pid : ℕ)
    | none => return none
  else
    let filePid ← toInt contents
    return some filePid

/-- `WriteLock.unlock`. -/
def unlock (lockName : String) (pid : ProcessId) (answer : CallAnswer) : Method (Option ℤ) := do
  let contents ← read lockName answer
  if contents.isEmpty then throw (.runtimeError "Lock is not held by any PID")
  else
    let filePid ← toInt contents
    if filePid = (pid : ℕ) then
      truncate lockName answer
      return none
    else throw (.runtimeError s!"Lock is held by another PID: {filePid}")

/-- A call in the body of a context. -/
def Call.run (lockName : String) (answer : CallAnswer) : Call → Method (Option ℤ)
  | .tryLock pid => LockFile.tryLock lockName pid answer
  | .unlock pid => LockFile.unlock lockName pid answer

/-! ### Leaving -/

/-- What the calls of the system in `__exit__` do; `some k` raises, and `k` of the characters that
are pending get into the file. -/
structure ExitAnswer where
  unlocked : Option ℕ := none
  closed : Option ℕ := none

/-- `fcntl.lockf(fid, fcntl.LOCK_UN)`.  Where it raises, the file object is left to the garbage
collector. -/
def releaseLock (lockName : String) (answer : Option ℕ) : Method Unit :=
  match answer with
  | none => pure ⟨⟩
  | some k => flush lockName (some k)

/-- `WriteLock.__exit__`. -/
def exit (lockName : String) (answer : ExitAnswer) : Method Unit := do
  if (← get).fid.isSome then
    releaseLock lockName answer.unlocked
    close lockName answer.closed
    rpcUnlock
  else pure ⟨⟩

/-! ### Runs -/

/-- A context `with WriteLock(run_path, lock_name) as lock:`, with what the system answers. -/
structure Context where
  lockName : String
  dirs : DirAnswer := .secure
  first : OpenAnswer := {}
  second : OpenAnswer := {}
  lock : Bool := true
  calls : List (Call × CallAnswer)
  exit : ExitAnswer := {}

/-- The calls in the body, up to one in which a call of the system raises, which leaves the body.
The body may go on after the other exceptions. -/
def runCalls (lockName : String) : List (Call × CallAnswer) → State → Bool × State
  | [], s => (false, s)
  | (c, answer) :: calls, s =>
    match c.run lockName answer s with
    | .ok result s' => runCalls lockName calls (s'.note (.call lockName c (.ok result)))
    | .error (.osError _) s' => (true, s')
    | .error e s' => runCalls lockName calls (s'.note (.call lockName c (.error e)))

/-- Whether a call of the system has raised in the body is seen at the end. -/
def noteFailure (lockName : String) (failed : Bool) (s : State) : State :=
  if failed then s.note (.failed lockName) else s

/-- The body and `__exit__`. -/
def runBody (c : Context) (s : State) : State :=
  let (failed, s') := runCalls c.lockName c.calls s
  noteFailure c.lockName failed (Prog.final (exit c.lockName c.exit) s')

/-- A context.  When it cannot be entered, the body and `__exit__` do not run. -/
def runContext (c : Context) (s : State) : State :=
  match (do secureMakeDirs c.dirs; enter c.lockName c.first c.second c.lock : Method Unit) s with
  | .ok _ s' => runBody c s'
  | .error _ s' => s'

/-- A context, or a restart of the service. -/
inductive Action where
  | context (c : Context)
  | restart

/-- A step of a run. -/
def step (s : State) : Action → State
  | .context c => runContext c s
  | .restart => { s with isFileActive := false, fid := none }

/-- The service when it starts first. -/
def start (umask : ℕ) : State where
  files _ := none
  isFileActive := false
  umask := umask
  fid := none
  log := []

/-! ### Registers -/

/-- The PID that a lock file holds. -/
def registerOf (contents : Option (List Char)) : Option ℤ :=
  match contents.getD [] with
  | [] => none
  | c :: cs => some ((Nat.ofDigitChars 10 (c :: cs) 0 : ℕ) : ℤ)

/-- The registers that the lock files stand for. -/
def State.registers (s : State) (lockName : String) : Option ℤ := registerOf (s.files lockName)

/-- What a register that holds no PID or one PID answers, and what it holds then. -/
def Call.onRegister (register : Option ℤ) : Call → Except PyErr (Option ℤ) × Option ℤ
  | .tryLock pid =>
    let holder := register.or (pid.map fun pid => ((pid : ℕ) : ℤ))
    (.ok holder, holder)
  | .unlock pid =>
    match register with
    | none => (.error (.runtimeError "Lock is not held by any PID"), none)
    | some filePid =>
      if filePid = (pid : ℕ) then (.ok none, none)
      else (.error (.runtimeError s!"Lock is held by another PID: {filePid}"), some filePid)

/-- The results are those of registers, which hold nothing at first.  A file that is renamed holds
nothing afterwards; after a context in which a call of the system failed its register holds
anything. -/
inductive Explains : List Event → (String → Option ℤ) → Prop where
  | nil : Explains [] fun _ => none
  | renamed {log registers} (lockName : String) : Explains log registers →
      Explains (log ++ [.renamed lockName]) (update registers lockName none)
  | renamedAll {log registers} : Explains log registers →
      Explains (log ++ [.renamedAll]) fun _ => none
  | call {log registers} (lockName : String) (c : Call) : Explains log registers →
      Explains (log ++ [.call lockName c (c.onRegister (registers lockName)).1])
        (update registers lockName (c.onRegister (registers lockName)).2)
  | failed {log registers} (lockName : String) (register : Option ℤ) : Explains log registers →
      Explains (log ++ [.failed lockName]) (update registers lockName register)

/-! ### What the files hold -/

/-- Decimal digits, no more than a PID has. -/
def Digits (contents : List Char) : Prop :=
  (∀ c ∈ contents, c.isDigit = true) ∧ contents.length ≤ 10

theorem digits_nil : Digits [] := ⟨by simp, by simp⟩

theorem digits_pid (pid : ProcessId) : Digits (Nat.toDigits 10 pid) := by
  refine ⟨fun c hc => Nat.isDigit_of_mem_toDigits (by decide) (by decide) hc, ?_⟩
  rw [Nat.length_toDigits_le_iff (by decide) (by decide)]
  have hpid := pid.isLt
  omega

theorem Digits.sublist {cs ds : List Char} (h : Digits ds) (hsub : cs.Sublist ds) : Digits cs :=
  ⟨fun c hc => h.1 c (hsub.subset hc), hsub.length_le.trans h.2⟩

/-- A PID is on one line. -/
theorem readline_of_digits {cs : List Char} (h : Digits cs) : readline 64 cs = cs := by
  have hline : cs.takeWhile (· ≠ '\n') = cs := by
    refine List.takeWhile_eq_self_iff.mpr fun c hc => decide_eq_true ?_
    rintro rfl
    exact absurd (h.1 _ hc) (by decide)
  unfold readline
  dsimp only
  rw [hline, if_neg (lt_irrefl _), List.take_of_length_le (h.2.trans (by decide))]

theorem registerOf_pid (pid : ProcessId) :
    registerOf (some (Nat.toDigits 10 pid)) = some ((pid : ℕ) : ℤ) := by
  unfold registerOf
  have hvalue := Nat.ofDigitChars_ten_toDigits (n := (pid : ℕ))
  cases hdigits : Nat.toDigits 10 pid with
  | nil => exact absurd hdigits Nat.toDigits_ne_nil
  | cons c cs =>
    rw [hdigits] at hvalue
    simp [hvalue]

/-- The files hold PIDs or nothing, and the results were those of their registers. -/
structure Kept (s : State) : Prop where
  digits : ∀ lockName, Digits ((s.files lockName).getD [])
  explains : Explains s.log s.registers

section Steps

variable {s s' : State} {lockName : String}

theorem registers_update (lockName : String) (contents : Option (List Char)) (s : State) :
    ({ s with files := update s.files lockName contents } : State).registers =
      update s.registers lockName (registerOf contents) := by
  funext other
  unfold State.registers
  by_cases h : other = lockName
  · subst h
    simp
  · simp [h]

theorem digits_update {contents : Option (List Char)} (h : ∀ n, Digits ((s.files n).getD []))
    (hnew : Digits (contents.getD [])) (other : String) :
    Digits ((update s.files lockName contents other).getD []) := by
  by_cases hother : other = lockName
  · subst hother
    simpa using hnew
  · simpa [hother] using h other

/-- A file that is renamed holds nothing. -/
theorem Kept.rename (h : Kept s) :
    Kept ({ s with files := update s.files lockName none }.note (.renamed lockName)) := by
  refine ⟨digits_update h.digits digits_nil, ?_⟩
  have hregisters := registers_update lockName none s
  exact hregisters ▸ .renamed lockName h.explains

theorem Kept.renameAll (h : Kept s) (umask : ℕ) :
    Kept ({ s with files := fun _ => none, umask := umask }.note .renamedAll) :=
  ⟨fun _ => digits_nil, .renamedAll h.explains⟩

theorem Kept.congr (h : Kept s) (hfiles : s'.files = s.files) (hlog : s'.log = s.log) :
    Kept s' := by
  refine ⟨by rw [hfiles]; exact h.digits, ?_⟩
  have hregisters : s'.registers = s.registers := by
    unfold State.registers
    rw [hfiles]
  rw [hlog, hregisters]
  exact h.explains

theorem Kept.openFile (lockName : String) (h : Kept s) (fid : Option FileObject) :
    Kept { s with
      files := update s.files lockName (some ((s.files lockName).getD []))
      fid := fid } := by
  refine ⟨digits_update h.digits (h.digits lockName), ?_⟩
  have hregisters := registers_update lockName
    (some ((s.files lockName).getD [])) s
  have hsame : registerOf (some ((s.files lockName).getD [])) = s.registers lockName := by
    unfold State.registers registerOf
    rfl
  rw [hsame, Function.update_eq_self] at hregisters
  have hexplains := h.explains
  rw [← hregisters] at hexplains
  exact hexplains

/-! ### Entering -/

/-- What is left of the flag, the mask and the file object. -/
def State.process (s : State) : Bool × ℕ × Option FileObject := (s.isFileActive, s.umask, s.fid)

open Prog

theorem secureMakeDirs_spec (lockName : String) (answer : DirAnswer) (hkept : Kept s) :
    wp (secureMakeDirs answer)
      (fun _ s' => Kept s' ∧ s'.process = s.process ∧ answer.Made ∧
        (answer = .secure → s' = s) ∧ (answer ≠ .secure → s'.files lockName = none))
      (fun _ s' => Kept s' ∧ s'.process = s.process ∧ ¬ answer.Made) s := by
  cases answer with
  | secure => exact ⟨hkept, rfl, trivial, fun _ => rfl, fun h => absurd rfl h⟩
  | raises => exact ⟨hkept, rfl, id⟩
  | renamed made =>
    have hrenamed := hkept.renameAll s.umask
    cases made with
    | true => exact ⟨hrenamed, rfl, rfl, nofun, fun _ => rfl⟩
    | false => exact ⟨hrenamed, rfl, nofun⟩
  | missing made =>
    have hrenamed : Kept ({ s with files := fun _ => none }.note .renamedAll) :=
      (hkept.renameAll 0o066).congr rfl rfl
    cases made with
    | true => exact ⟨hrenamed, rfl, rfl, nofun, fun _ => rfl⟩
    | false => exact ⟨hrenamed, rfl, nofun⟩

/-- No call of the system raises in an attempt to open a file, which exists or not. -/
structure OpenAnswer.Sound (exists_ : Prop) (answer : OpenAnswer) : Prop where
  path : exists_ → answer.path ≠ .raises
  opened : answer.opened = true
  file : answer.file ≠ .raises
  closed : answer.file = .renamed → answer.closed = none

theorem checkExisting_spec (answer : FileAnswer) (hkept : Kept s) :
    wp (checkExisting lockName answer)
      (fun _ s' => Kept s' ∧ s'.process = s.process ∧ (s.files lockName ≠ none → answer ≠ .raises))
      (fun _ s' => Kept s' ∧ s'.process = s.process ∧
        ¬ (s.files lockName ≠ none → answer ≠ .raises)) s := by
  unfold checkExisting
  rw [wp_bind, wp_get, wp_ite]
  refine ⟨fun hexists => ?_, fun hnone => ?_⟩
  · have hexists : s.files lockName ≠ none := Option.isSome_iff_ne_none.mp hexists
    cases answer with
    | secure => exact ⟨hkept, rfl, nofun⟩
    | renamed => exact ⟨hkept.rename, rfl, nofun⟩
    | raises => exact ⟨hkept, rfl, fun h => h hexists rfl⟩
  · have hnone : s.files lockName = none := by simpa using hnone
    exact ⟨hkept, rfl, fun h => absurd hnone h⟩

/-- Closing a file that nothing was written to. -/
theorem close_spec {n : ℕ} (answer : Option ℕ) (hfid : s.fid = some ⟨n, []⟩) :
    wp (close lockName answer) (fun _ s' => s' = { s with fid := none } ∧ answer = none)
      (fun _ s' => s' = { s with fid := none } ∧ answer ≠ none) s := by
  unfold close flush
  rw [wp_tryFinally, wp_bind, wp_modify]
  cases answer with
  | none => exact ⟨by simp [hfid], rfl⟩
  | some k => exact ⟨by simp [hfid], nofun⟩

theorem tryOpen_spec (lockName : String) (answer : OpenAnswer) (hkept : Kept s) :
    wp (tryOpen lockName answer)
      (fun _ s' => Kept s' ∧ s'.isFileActive = s.isFileActive ∧ s'.umask = s.umask ∧
        answer.Sound (s.files lockName ≠ none) ∧
        (answer.file = .secure → ∃ n, s'.fid = some ⟨n, []⟩) ∧
        (answer.file = .renamed → s'.fid = none ∧ s'.files lockName = none))
      (fun _ s' => Kept s' ∧ s'.isFileActive = s.isFileActive ∧ s'.umask = s.umask ∧
        ¬ answer.Sound (s.files lockName ≠ none)) s := by
  unfold tryOpen
  rw [wp_bind]
  refine wp_mono (checkExisting_spec answer.path hkept) (fun _ s₁ h₁ => ?_) fun _ s₁ h₁ => ?_
  · obtain ⟨hkept₁, hprocess₁, hpath⟩ := h₁
    simp only [State.process, Prod.mk.injEq] at hprocess₁
    obtain ⟨hactive₁, humask₁, -⟩ := hprocess₁
    unfold openFile call
    rw [wp_bind, wp_bind, wp_ite]
    refine ⟨fun hopened => ?_, fun hopened => ?_⟩
    · rw [wp_pure, wp_modify]
      have hkept₂ := hkept₁.openFile lockName
        (some ⟨((s₁.files lockName).getD []).length, []⟩)
      cases hfile : answer.file with
      | secure =>
        refine ⟨hkept₂, hactive₁, humask₁, ⟨hpath, hopened, by simp [hfile], by simp [hfile]⟩,
          fun _ => ⟨_, rfl⟩, nofun⟩
      | renamed =>
        unfold isSecureFile rename closeInsecure
        rw [wp_bind, wp_bind, wp_modify, wp_pure]
        refine wp_mono (close_spec answer.closed rfl) ?_ ?_
        · rintro _ _ ⟨rfl, hclosed⟩
          exact ⟨hkept₂.rename.congr rfl rfl, hactive₁, humask₁,
            ⟨hpath, hopened, by simp [hfile], fun _ => hclosed⟩, nofun,
            fun _ => ⟨rfl, by simp [State.note]⟩⟩
        · rintro _ _ ⟨rfl, hclosed⟩
          exact ⟨hkept₂.rename.congr rfl rfl, hactive₁, humask₁,
            fun hsound => hclosed (hsound.closed hfile)⟩
      | raises =>
        exact ⟨hkept₂, hactive₁, humask₁, fun hsound => hsound.file hfile⟩
    · rw [wp_throw]
      exact ⟨hkept₁, hactive₁, humask₁, fun hsound => hopened hsound.opened⟩
  · obtain ⟨hkept₁, hprocess₁, hpath⟩ := h₁
    simp only [State.process, Prod.mk.injEq] at hprocess₁
    exact ⟨hkept₁, hprocess₁.1, hprocess₁.2.1, fun hsound => hpath hsound.path⟩

/-- No call of the system raises in the loop of `__enter__`; the second attempt follows when the
file of the first one is renamed. -/
structure OpensSoundly (exists_ : Prop) (first second : OpenAnswer) : Prop where
  firstSound : first.Sound exists_
  secondSound : first.file = .renamed → second.Sound False

/-- One of the attempts finds a secure file. -/
def Opens (first second : OpenAnswer) : Prop := first.file = .secure ∨ second.file = .secure

theorem openLoop_spec (lockName : String) (first second : OpenAnswer) (hkept : Kept s)
    (hfid : s.fid = none) :
    wp (openLoop lockName [first, second])
      (fun _ s' => Kept s' ∧ s'.isFileActive = s.isFileActive ∧ s'.umask = s.umask ∧
        OpensSoundly (s.files lockName ≠ none) first second ∧
        (Opens first second → ∃ n, s'.fid = some ⟨n, []⟩) ∧
        (¬ Opens first second → s'.fid = none))
      (fun _ s' => Kept s' ∧ s'.isFileActive = s.isFileActive ∧ s'.umask = s.umask ∧
        ¬ OpensSoundly (s.files lockName ≠ none) first second) s := by
  unfold openLoop
  rw [wp_bind, wp_get, wp_ite]
  refine ⟨fun _ => ?_, fun hsome => absurd (by rw [hfid]; rfl) hsome⟩
  rw [wp_bind]
  refine wp_mono (tryOpen_spec lockName first hkept) (fun _ s₁ h₁ => ?_) fun _ s₁ h₁ => ?_
  · obtain ⟨hkept₁, hactive₁, humask₁, hfirst, hsecure, hrenamed⟩ := h₁
    unfold openLoop
    rw [wp_bind, wp_get, wp_ite]
    cases hfile : first.file with
    | raises => exact absurd hfile hfirst.file
    | secure =>
      obtain ⟨n, hfid₁⟩ := hsecure hfile
      refine ⟨fun hnone => ?_, fun _ => ?_⟩
      · rw [hfid₁] at hnone
        cases hnone
      · exact ⟨hkept₁, hactive₁, humask₁, ⟨hfirst, by simp [hfile]⟩, fun _ => ⟨n, hfid₁⟩,
          fun hopens => absurd (.inl hfile) hopens⟩
    | renamed =>
      obtain ⟨hfid₁, hfiles₁⟩ := hrenamed hfile
      refine ⟨fun _ => ?_, fun hsome => absurd (by rw [hfid₁]; rfl) hsome⟩
      have hsecond := tryOpen_spec lockName second hkept₁
      rw [hfiles₁] at hsecond
      simp only [ne_eq, not_true_eq_false] at hsecond
      rw [wp_bind]
      refine wp_mono hsecond (fun _ s₂ h₂ => ?_) fun _ s₂ h₂ => ?_
      · obtain ⟨hkept₂, hactive₂, humask₂, hsound, hsecure₂, hrenamed₂⟩ := h₂
        refine ⟨hkept₂, hactive₂.trans hactive₁, humask₂.trans humask₁, ⟨hfirst, fun _ => hsound⟩,
          ?_, ?_⟩
        · rintro (hopens | hopens)
          · rw [hfile] at hopens
            cases hopens
          · exact hsecure₂ hopens
        · intro hopens
          cases hfile₂ : second.file with
          | secure => exact absurd (.inr hfile₂) hopens
          | renamed => exact (hrenamed₂ hfile₂).1
          | raises => exact absurd hfile₂ hsound.file
      · obtain ⟨hkept₂, hactive₂, humask₂, hunsound⟩ := h₂
        exact ⟨hkept₂, hactive₂.trans hactive₁, humask₂.trans humask₁,
          fun hsound => hunsound (hsound.secondSound hfile)⟩
  · obtain ⟨hkept₁, hactive₁, humask₁, hunsound⟩ := h₁
    exact ⟨hkept₁, hactive₁, humask₁, fun hsound => hunsound hsound.firstSound⟩

theorem lockOpened_spec {opens : Prop} (lock : Bool) (hkept : Kept s)
    (hactive : s.isFileActive = true) (hopens : opens → ∃ n, s.fid = some ⟨n, []⟩)
    (hnot : ¬ opens → s.fid = none) :
    wp (lockOpened lock)
      (fun _ s' => Kept s' ∧ s'.process = (true, s.umask, some ⟨0, []⟩) ∧ opens ∧ lock = true)
      (fun _ s' => Kept s' ∧ s'.umask = s.umask ∧
        (s'.isFileActive = true ∧ opens ∧ lock = false ∨
          s'.isFileActive = false ∧ s'.fid = none ∧ ¬ opens)) s := by
  unfold lockOpened
  rw [wp_bind, wp_get, wp_ite]
  refine ⟨fun hnone => ?_, fun hsome => ?_⟩
  · have hfid : s.fid = none := by simpa using hnone
    have hopens : ¬ opens := fun h => by
      obtain ⟨n, hn⟩ := hopens h
      rw [hfid] at hn
      cases hn
    unfold rpcUnlock
    rw [wp_bind, wp_bind, wp_get, wp_ite]
    refine ⟨fun h => absurd hactive (by simpa using h), fun _ => ?_⟩
    exact ⟨hkept.congr rfl rfl, rfl, .inr ⟨rfl, hfid, hopens⟩⟩
  · by_cases h : opens
    · obtain ⟨n, hfid⟩ := hopens h
      unfold call
      rw [wp_bind, wp_ite]
      refine ⟨fun hlock => ?_, fun hlock => ?_⟩
      · rw [wp_pure, wp_modify]
        exact ⟨hkept.congr rfl rfl, by simp [State.process, hactive, hfid], h, hlock⟩
      · rw [wp_throw]
        exact ⟨hkept, rfl, .inl ⟨hactive, h, by simpa using hlock⟩⟩
    · rw [hnot h] at hsome
      exact absurd rfl hsome

/-- The context is entered, or the flag is set after a call has raised; it is clear when no secure
file was found. -/
theorem enter_spec (lockName : String) (first second : OpenAnswer) (lock : Bool) (hkept : Kept s)
    (hactive : s.isFileActive = false) (hfid : s.fid = none) :
    wp (enter lockName first second lock)
      (fun _ s' => Kept s' ∧ s'.process = (true, s.umask, some ⟨0, []⟩) ∧
        OpensSoundly (s.files lockName ≠ none) first second ∧ Opens first second ∧ lock = true)
      (fun _ s' => Kept s' ∧ s'.umask = s.umask ∧
        (s'.isFileActive = true ∧ ¬ (OpensSoundly (s.files lockName ≠ none) first second ∧
            (Opens first second → lock = true)) ∨
          s'.isFileActive = false ∧ s'.fid = none ∧
            OpensSoundly (s.files lockName ≠ none) first second ∧ ¬ Opens first second)) s := by
  unfold enter rpcLock
  rw [wp_bind, wp_bind, wp_get, wp_ite]
  refine ⟨fun h => absurd h (by simp [hactive]), fun _ => ?_⟩
  rw [wp_modify, wp_bind, wp_get, wp_bind, wp_modify, wp_bind, wp_tryFinally]
  have hloop := openLoop_spec lockName first second
    (hkept.congr rfl rfl : Kept { s with isFileActive := true, umask := 0o077 }) hfid
  refine wp_mono hloop (fun _ s₁ h₁ => ?_) fun _ s₁ h₁ => ?_
  · obtain ⟨hkept₁, hactive₁, -, hsound, hopens, hnot⟩ := h₁
    rw [wp_modify]
    refine wp_mono (lockOpened_spec lock (hkept₁.congr rfl rfl) hactive₁ hopens hnot)
      (fun _ s₂ h₂ => ?_) fun _ s₂ h₂ => ?_
    · obtain ⟨hkept₂, hprocess₂, hopens₂, hlock⟩ := h₂
      exact ⟨hkept₂, hprocess₂, hsound, hopens₂, hlock⟩
    · obtain ⟨hkept₂, humask₂, hcases⟩ := h₂
      refine ⟨hkept₂, humask₂, ?_⟩
      rcases hcases with ⟨hactive₂, hopens₂, hlock⟩ | ⟨hactive₂, hfid₂, hopens₂⟩
      · exact .inl ⟨hactive₂, fun h => by simp [h.2 hopens₂] at hlock⟩
      · exact .inr ⟨hactive₂, hfid₂, hsound, hopens₂⟩
  · obtain ⟨hkept₁, hactive₁, -, hunsound⟩ := h₁
    rw [wp_modify]
    exact ⟨hkept₁.congr rfl rfl, rfl, .inl ⟨hactive₁, fun h => hunsound h.1⟩⟩

/-! ### The calls in a body -/

/-- The file object is open, and some of a PID may not be in the file yet; the other files and what
has been seen are as before. -/
structure Writing (lockName : String) (s₀ s : State) : Prop where
  active : s.isFileActive = true
  umask : s.umask = s₀.umask
  fid : ∃ f, s.fid = some f ∧ Digits ((s.files lockName).getD [] ++ f.pending)
  others : ∀ other, other ≠ lockName → s.files other = s₀.files other
  log : s.log = s₀.log

/-- Between the calls of a body the position is at the start and nothing is pending. -/
structure InBody (s : State) : Prop where
  active : s.isFileActive = true
  fid : s.fid = some ⟨0, []⟩
  kept : Kept s

theorem read_spec (answer : CallAnswer) (hbody : InBody s) :
    wp (read lockName answer) (fun contents s' => s' = s ∧ contents = (s.files lockName).getD [])
      (fun e s' => s' = s ∧ e = osError) s := by
  unfold read call
  rw [wp_bind, wp_get, hbody.fid]
  dsimp only
  rw [wp_bind, wp_ite]
  refine ⟨fun _ => ?_, fun _ => ⟨rfl, rfl⟩⟩
  rw [wp_pure, wp_bind, wp_get, wp_bind, wp_modify, wp_pure]
  refine ⟨?_, readline_of_digits (hbody.kept.digits lockName)⟩
  rw [← hbody.fid]

/-- What is left when writing stops: nothing, or a part of the digits. -/
theorem write_spec (pid : ProcessId) (answer : CallAnswer) (hbody : InBody s) :
    wp (write lockName pid answer)
      (fun _ s' => s' = { s with
        files := update s.files lockName (some (Nat.toDigits 10 pid)) })
      (fun e s' => e = osError ∧ Writing lockName s s') s := by
  have hdigits := digits_pid pid
  have hne : Nat.toDigits 10 (pid : ℕ) ≠ [] := Nat.toDigits_ne_nil
  unfold write truncate call
  rw [wp_bind, wp_bind, wp_ite]
  refine ⟨fun _ => ?_, fun _ => ?_⟩
  · rw [wp_pure, wp_modify, wp_bind, wp_ite]
    refine ⟨fun _ => ?_, fun _ => ?_⟩
    · rw [wp_pure, wp_bind, wp_modify, wp_bind]
      unfold flush call
      rw [wp_bind, wp_modify, hbody.fid]
      cases answer.flush with
      | none =>
        simp [hne, FileObject.flushed]
      | some k =>
        simp only [hne, Option.map_some, List.nil_append, List.isEmpty_iff, if_false,
          Option.isNone_some, Bool.false_eq_true, wp_throw, FileObject.flushed]
        refine ⟨trivial, hbody.active, rfl, ⟨_, rfl, ?_⟩, fun other hother => ?_, rfl⟩
        · simpa using hdigits
        · simp [hother]
    · rw [wp_throw]
      refine ⟨rfl, hbody.active, rfl, ⟨_, hbody.fid, ?_⟩, fun other hother => ?_, rfl⟩
      · simpa using digits_nil
      · simp [hother]
  · rw [wp_throw]
    refine ⟨rfl, hbody.active, rfl, ⟨_, hbody.fid, ?_⟩, fun _ _ => rfl, rfl⟩
    simpa using hbody.kept.digits lockName

theorem toInt_of_digits {contents : List Char} (h : Digits contents) (hne : contents ≠ []) :
    ∃ filePid, registerOf (some contents) = some filePid ∧ toInt contents = pure filePid := by
  unfold toInt registerOf
  rw [pyInt?_ofList h.1 hne]
  cases contents with
  | nil => exact absurd rfl hne
  | cons c cs => exact ⟨_, rfl, rfl⟩

/-- A call that no call of the system fails in does what the register does. -/
structure Answers (lockName : String) (c : Call) (result : Except PyErr (Option ℤ))
    (s s' : State) : Prop where
  active : s'.isFileActive = true
  umask : s'.umask = s.umask
  fid : s'.fid = some ⟨0, []⟩
  others : ∀ other, other ≠ lockName → s'.files other = s.files other
  digits : Digits ((s'.files lockName).getD [])
  log : s'.log = s.log
  register : c.onRegister (s.registers lockName) = (result, s'.registers lockName)

theorem registers_of_empty (h : ((s.files lockName).getD []).isEmpty = true) :
    s.registers lockName = none := by
  unfold State.registers registerOf
  rw [List.isEmpty_iff.mp h]

theorem registers_of_contents {contents : List Char} (h : (s.files lockName).getD [] = contents) :
    s.registers lockName = registerOf (some contents) := by
  unfold State.registers registerOf
  rw [h]
  rfl

theorem run_spec (lockName : String) (c : Call) (answer : CallAnswer) (hbody : InBody s) :
    wp (c.run lockName answer) (fun result s' => Answers lockName c (.ok result) s s')
      (fun e s' => e = osError ∧ Writing lockName s s' ∨
        (∃ msg, e = .runtimeError msg) ∧ Answers lockName c (.error e) s s') s := by
  have hdigits := hbody.kept.digits lockName
  have hunread : osError = osError ∧ Writing lockName s s :=
    ⟨rfl, hbody.active, rfl, ⟨_, hbody.fid, by simpa using hdigits⟩, fun _ _ => rfl, rfl⟩
  have hsame : ∀ result, c.onRegister (s.registers lockName) = (result, s.registers lockName) →
      Answers lockName c result s s := fun result h =>
    ⟨hbody.active, rfl, hbody.fid, fun _ _ => rfl, hdigits, rfl, h⟩
  cases c with
  | tryLock pid =>
    unfold Call.run LockFile.tryLock
    rw [wp_bind]
    refine wp_mono (read_spec answer hbody) ?_ ?_
    · rintro _ _ ⟨rfl, rfl⟩
      rw [wp_ite]
      refine ⟨fun hempty => ?_, fun hne => ?_⟩
      · have hregister := registers_of_empty hempty
        cases pid with
        | none => exact hsame _ (by simp [Call.onRegister, hregister])
        | some pid =>
          dsimp only
          rw [wp_bind]
          refine wp_mono (write_spec pid answer hbody) ?_ fun _ _ h => .inl h
          rintro _ _ rfl
          refine ⟨hbody.active, rfl, hbody.fid, fun other hother => by simp [hother], ?_, rfl, ?_⟩
          · simpa using digits_pid pid
          · rw [hregister, registers_update lockName, update_self, registerOf_pid]
            rfl
      · rw [List.isEmpty_iff] at hne
        obtain ⟨filePid, hvalue, hint⟩ := toInt_of_digits hdigits hne
        rw [hint, wp_bind, wp_pure, wp_pure]
        rw [← registers_of_contents rfl] at hvalue
        exact hsame _ (by simp [Call.onRegister, hvalue])
    · rintro _ _ ⟨rfl, rfl⟩
      exact .inl hunread
  | unlock pid =>
    unfold Call.run LockFile.unlock
    rw [wp_bind]
    refine wp_mono (read_spec answer hbody) ?_ ?_
    · rintro _ _ ⟨rfl, rfl⟩
      rw [wp_ite]
      refine ⟨fun hempty => ?_, fun hne => ?_⟩
      · rw [wp_throw]
        exact .inr ⟨⟨_, rfl⟩, hsame _ (by simp [Call.onRegister, registers_of_empty hempty])⟩
      · rw [List.isEmpty_iff] at hne
        obtain ⟨filePid, hvalue, hint⟩ := toInt_of_digits hdigits hne
        rw [hint, wp_bind, wp_pure, wp_ite]
        rw [← registers_of_contents rfl] at hvalue
        refine ⟨fun heq => ?_, fun hother => ?_⟩
        · unfold truncate call
          rw [wp_bind, wp_bind, wp_ite]
          refine ⟨fun _ => ?_, fun _ => .inl hunread⟩
          rw [wp_pure, wp_modify, wp_pure]
          refine ⟨hbody.active, rfl, hbody.fid, fun other hother => by simp [hother], ?_, rfl, ?_⟩
          · simpa using digits_nil
          · rw [registers_update lockName, update_self]
            simp [Call.onRegister, hvalue, heq, registerOf]
        · rw [wp_throw]
          exact .inr ⟨⟨_, rfl⟩, hsame _ (by simp [Call.onRegister, hvalue, hother])⟩
    · rintro _ _ ⟨rfl, rfl⟩
      exact .inl hunread

/-- A result of a register is noted. -/
theorem Answers.inBody {c : Call} {result : Except PyErr (Option ℤ)}
    (h : Answers lockName c result s s') (hkept : Kept s) :
    InBody (s'.note (.call lockName c result)) := by
  refine ⟨h.active, h.fid, fun other => ?_, ?_⟩
  · by_cases hother : other = lockName
    · subst hother
      exact h.digits
    · exact (congrArg (fun contents => Digits (contents.getD [])) (h.others other hother)).mpr
        (hkept.digits other)
  · have hregister := h.register
    have hregisters : s'.registers = update s.registers lockName
        (c.onRegister (s.registers lockName)).2 := by
      funext other
      by_cases hother : other = lockName
      · subst hother
        simp [hregister]
      · simp [hother, State.registers, h.others other hother]
    have hexplains := Explains.call lockName c hkept.explains
    rw [← hregisters, hregister, ← h.log] at hexplains
    exact hexplains

theorem runCalls_spec (lockName : String) (calls : List (Call × CallAnswer)) (hbody : InBody s) :
    (runCalls lockName calls s).2.umask = s.umask ∧
      ((runCalls lockName calls s).1 = false → InBody (runCalls lockName calls s).2) ∧
      ((runCalls lockName calls s).1 = true → ∃ s₀, Kept s₀ ∧
        Writing lockName s₀ (runCalls lockName calls s).2) := by
  induction calls generalizing s with
  | nil => exact ⟨rfl, fun _ => hbody, nofun⟩
  | cons call calls ih =>
    obtain ⟨c, answer⟩ := call
    have hspec := run_spec lockName c answer hbody
    unfold runCalls
    unfold wp at hspec
    cases hrun : c.run lockName answer s with
    | ok result s' =>
      rw [hrun] at hspec
      obtain ⟨humask, hrest⟩ := ih (hspec.inBody hbody.kept)
      exact ⟨humask.trans hspec.umask, hrest⟩
    | error e s' =>
      rw [hrun] at hspec
      rcases hspec with ⟨rfl, hwriting⟩ | ⟨⟨msg, rfl⟩, hanswers⟩
      · exact ⟨hwriting.umask, nofun, fun _ => ⟨s, hbody.kept, hwriting⟩⟩
      · obtain ⟨humask, hrest⟩ := ih (hanswers.inBody hbody.kept)
        exact ⟨humask.trans hanswers.umask, hrest⟩

/-! ### Leaving -/

/-- What is pending has got into the file, or a part of it. -/
structure Flushed (lockName : String) (s s' : State) : Prop where
  active : s'.isFileActive = s.isFileActive
  umask : s'.umask = s.umask
  others : ∀ other, other ≠ lockName → s'.files other = s.files other
  digits : Digits ((s'.files lockName).getD [])
  log : s'.log = s.log
  quiet : s.fid = some ⟨0, []⟩ → s'.files = s.files

theorem flush_spec {f : FileObject} (answer : Option ℕ) (hfid : s.fid = some f)
    (hdigits : Digits ((s.files lockName).getD [] ++ f.pending)) :
    wp (flush lockName answer) (fun _ s' => Flushed lockName s s' ∧ answer = none)
      (fun _ s' => Flushed lockName s s' ∧ answer ≠ none) s := by
  obtain ⟨position, pending⟩ := f
  have hfile : Digits ((s.files lockName).getD []) :=
    hdigits.sublist (List.sublist_append_left _ _)
  have hflushed : ∀ s', s' = (if pending.isEmpty then s else
      { s with
        files := update s.files lockName (some
          (FileObject.flushed ⟨position, pending⟩ ((s.files lockName).getD []) answer).1)
        fid := some (FileObject.flushed ⟨position, pending⟩ ((s.files lockName).getD [])
          answer).2 }) → Flushed lockName s s' := by
    rintro _ rfl
    cases hpending : pending.isEmpty with
    | true => exact ⟨rfl, rfl, fun _ _ => rfl, hfile, rfl, fun _ => rfl⟩
    | false =>
      refine ⟨rfl, rfl, fun other hother => by simp [hother], ?_, rfl, fun hnone => ?_⟩
      · cases answer with
        | none => simpa [FileObject.flushed] using hdigits
        | some k =>
          simpa [FileObject.flushed] using
            hdigits.sublist (List.Sublist.append_left (List.take_sublist k pending) _)
      · rw [hfid] at hnone
        cases hnone
        cases hpending
  unfold flush call
  rw [wp_bind, wp_modify, hfid]
  dsimp only
  cases answer with
  | none => exact ⟨hflushed _ rfl, rfl⟩
  | some k => exact ⟨hflushed _ rfl, nofun⟩

/-- No call of the system raises in `__exit__`. -/
def ExitAnswer.Sound (answer : ExitAnswer) : Prop := answer.unlocked = none ∧ answer.closed = none

/-- The flag is cleared and the file is closed just when no call of the system raises. -/
structure Left (lockName : String) (answer : ExitAnswer) (s s' : State) : Prop where
  active : s'.isFileActive = true ↔ ¬ answer.Sound
  umask : s'.umask = s.umask
  fid : answer.Sound → s'.fid = none
  others : ∀ other, other ≠ lockName → s'.files other = s.files other
  digits : Digits ((s'.files lockName).getD [])
  log : s'.log = s.log
  quiet : s.fid = some ⟨0, []⟩ → s'.files = s.files

theorem exit_spec {f : FileObject} (lockName : String) (answer : ExitAnswer)
    (hactive : s.isFileActive = true) (hfid : s.fid = some f)
    (hdigits : Digits ((s.files lockName).getD [] ++ f.pending)) :
    Left lockName answer s (final (exit lockName answer) s) := by
  rw [← wp_final (P := Left lockName answer s)]
  unfold exit
  rw [wp_bind, wp_get, wp_ite]
  refine ⟨fun _ => ?_, fun hnone => absurd (by rw [hfid]; rfl) hnone⟩
  rw [wp_bind]
  cases hunlocked : answer.unlocked with
  | none =>
    unfold releaseLock
    rw [wp_pure, wp_bind]
    unfold close
    rw [wp_tryFinally]
    refine wp_mono (flush_spec answer.closed hfid hdigits) ?_ ?_
    · rintro _ s₁ ⟨h, hclosed⟩
      have hsound : answer.Sound := ⟨hunlocked, hclosed⟩
      unfold rpcUnlock
      rw [wp_modify, wp_bind, wp_get, wp_ite]
      have hactive₁ : s₁.isFileActive = true := h.active.trans hactive
      refine ⟨fun hnot => absurd hactive₁ (by simpa using hnot), fun _ => ?_⟩
      exact ⟨⟨nofun, fun hnot => absurd hsound hnot⟩, h.umask, fun _ => rfl, h.others, h.digits,
        h.log, h.quiet⟩
    · rintro _ s₁ ⟨h, hclosed⟩
      have hunsound : ¬ answer.Sound := fun hsound => hclosed hsound.2
      rw [wp_modify]
      exact ⟨⟨fun _ => hunsound, fun _ => h.active.trans hactive⟩, h.umask,
        fun hsound => absurd hsound hunsound, h.others, h.digits, h.log, h.quiet⟩
  | some k =>
    have hunsound : ¬ answer.Sound := fun hsound => nomatch hunlocked.symm.trans hsound.1
    unfold releaseLock
    refine wp_mono (flush_spec (some k) hfid hdigits) ?_ ?_
    · rintro _ s₁ ⟨-, hnone⟩
      cases hnone
    · rintro _ s₁ ⟨h, -⟩
      exact ⟨⟨fun _ => hunsound, fun _ => h.active.trans hactive⟩, h.umask,
        fun hsound => absurd hsound hunsound, h.others, h.digits, h.log, h.quiet⟩

/-- The flag is clear, the file is closed and the mask is that of before. -/
structure Released (s s' : State) : Prop where
  active : s'.isFileActive = false
  fid : s'.fid = none
  umask : s'.umask = s.umask

theorem runBody_spec (c : Context) (hbody : InBody s) :
    Kept (runBody c s) ∧ (runBody c s).umask = s.umask ∧
      ((runBody c s).isFileActive = true ↔ ¬ c.exit.Sound) ∧
      (c.exit.Sound → (runBody c s).fid = none) := by
  obtain ⟨humask, hreturned, hfailed⟩ := runCalls_spec c.lockName c.calls hbody
  unfold runBody
  generalize runCalls c.lockName c.calls s = result at humask hreturned hfailed
  obtain ⟨failed, s₁⟩ := result
  dsimp only at humask hreturned hfailed ⊢
  cases failed with
  | false =>
    have hbody₁ := hreturned rfl
    have hleft := exit_spec c.lockName c.exit hbody₁.active hbody₁.fid
      (by simpa using hbody₁.kept.digits c.lockName)
    exact ⟨hbody₁.kept.congr (hleft.quiet hbody₁.fid) hleft.log, hleft.umask.trans humask,
      hleft.active, hleft.fid⟩
  | true =>
    obtain ⟨s₀, hkept₀, hwriting⟩ := hfailed rfl
    obtain ⟨f, hfid, hdigits⟩ := hwriting.fid
    have hleft := exit_spec c.lockName c.exit hwriting.active hfid hdigits
    refine ⟨⟨fun other => ?_, ?_⟩, hleft.umask.trans humask, hleft.active, hleft.fid⟩
    · by_cases hother : other = c.lockName
      · subst hother
        exact hleft.digits
      · have hsame := (hleft.others other hother).trans (hwriting.others other hother)
        exact (congrArg (fun contents => Digits (contents.getD [])) hsame).mpr
          (hkept₀.digits other)
    · -- the register of the file may hold anything now
      have hregisters : (final (exit c.lockName c.exit) s₁).registers =
          update s₀.registers c.lockName
            ((final (exit c.lockName c.exit) s₁).registers c.lockName) := by
        funext other
        by_cases hother : other = c.lockName
        · subst hother
          simp
        · have hsame := (hleft.others other hother).trans (hwriting.others other hother)
          simp [hother, State.registers, hsame]
      have hexplains := Explains.failed c.lockName
        ((final (exit c.lockName c.exit) s₁).registers c.lockName) hkept₀.explains
      rw [← hregisters, ← hwriting.log, ← hleft.log] at hexplains
      exact hexplains

/-! ### Runs -/

/-- No call of the system raises between setting the flag and clearing it, unless it is one in the
body.  The file may only be checked before it is opened where there is one. -/
def Context.Sound (s : State) (c : Context) : Prop :=
  c.dirs.Made →
    OpensSoundly (c.dirs = .secure ∧ s.files c.lockName ≠ none) c.first c.second ∧
      (Opens c.first c.second → c.lock = true ∧ c.exit.Sound)

/-- A context in which no call of the system raises outside of the body; a restart. -/
def Action.Sound (s : State) : Action → Prop
  | .context c => c.Sound s
  | .restart => True

/-- What holds between the contexts of a run. -/
structure Inv (s : State) : Prop where
  kept : Kept s
  fid : s.isFileActive = false → s.fid = none

/-- What holds in the body of a context that is entered, or when it could not be entered. -/
theorem enterContext_spec (c : Context) (hinv : Inv s) (hactive : s.isFileActive = false) :
    wp (do secureMakeDirs c.dirs; enter c.lockName c.first c.second c.lock : Method Unit)
      (fun _ s' => InBody s' ∧ s'.umask = s.umask ∧ (c.exit.Sound → c.Sound s) ∧
        (c.Sound s → c.exit.Sound))
      (fun _ s' => Kept s' ∧ s'.umask = s.umask ∧
        (s'.isFileActive = true ∧ ¬ c.Sound s ∨
          s'.isFileActive = false ∧ s'.fid = none ∧ c.Sound s)) s := by
  rw [wp_bind]
  refine wp_mono (secureMakeDirs_spec c.lockName c.dirs hinv.kept)
    (fun _ s₁ h₁ => ?_) fun _ s₁ h₁ => ?_
  · obtain ⟨hkept₁, hprocess₁, hmade, hsecure, hnew⟩ := h₁
    simp only [State.process, Prod.mk.injEq] at hprocess₁
    obtain ⟨hactive₁, humask₁, hfid₁⟩ := hprocess₁
    -- a file is there only in a directory that was
    have hexists : (s₁.files c.lockName ≠ none) =
        (c.dirs = .secure ∧ s.files c.lockName ≠ none) := by
      by_cases hdirs : c.dirs = .secure
      · simp [hdirs, hsecure hdirs]
      · simp [hdirs, hnew hdirs]
    have henter := enter_spec c.lockName c.first c.second c.lock hkept₁
      (hactive₁.trans hactive) (hfid₁.trans (hinv.fid hactive))
    rw [hexists] at henter
    refine wp_mono henter (fun _ s₂ h₂ => ?_) fun _ s₂ h₂ => ?_
    · obtain ⟨hkept₂, hprocess₂, hsound, hopens, hlock⟩ := h₂
      simp only [State.process, Prod.mk.injEq] at hprocess₂
      obtain ⟨hactive₂, humask₂, hfid₂⟩ := hprocess₂
      exact ⟨⟨hactive₂, hfid₂, hkept₂⟩, humask₂.trans humask₁,
        fun hexit _ => ⟨hsound, fun _ => ⟨hlock, hexit⟩⟩, fun h => ((h hmade).2 hopens).2⟩
    · obtain ⟨hkept₂, humask₂, hcases⟩ := h₂
      refine ⟨hkept₂, humask₂.trans humask₁, ?_⟩
      rcases hcases with ⟨hactive₂, hunsound⟩ | ⟨hactive₂, hfid₂, hsound, hopens⟩
      · exact .inl ⟨hactive₂, fun h => hunsound ⟨(h hmade).1, fun ho => ((h hmade).2 ho).1⟩⟩
      · exact .inr ⟨hactive₂, hfid₂, fun _ => ⟨hsound, fun ho => absurd ho hopens⟩⟩
  · obtain ⟨hkept₁, hprocess₁, hmade⟩ := h₁
    simp only [State.process, Prod.mk.injEq] at hprocess₁
    obtain ⟨hactive₁, humask₁, hfid₁⟩ := hprocess₁
    exact ⟨hkept₁, humask₁, .inr ⟨hactive₁.trans hactive, hfid₁.trans (hinv.fid hactive),
      fun h => absurd h hmade⟩⟩

theorem runContext_spec (c : Context) (hinv : Inv s) (hactive : s.isFileActive = false) :
    Inv (runContext c s) ∧ (Released s (runContext c s) ↔ c.Sound s) := by
  have hspec := enterContext_spec c hinv hactive
  unfold wp at hspec
  unfold runContext
  cases henter : (do secureMakeDirs c.dirs; enter c.lockName c.first c.second c.lock :
      Method Unit) s with
  | ok _ s₁ =>
    rw [henter] at hspec
    obtain ⟨hbody, humask, hsound, hsound'⟩ := hspec
    obtain ⟨hkept, humask', hactive', hfid'⟩ := runBody_spec c hbody
    dsimp only
    by_cases hexit : c.exit.Sound
    · have hclear : (runBody c s₁).isFileActive = false := by
        rw [Bool.eq_false_iff, ne_eq, hactive']
        exact fun h => h hexit
      exact ⟨⟨hkept, fun _ => hfid' hexit⟩, fun _ => hsound hexit,
        fun _ => ⟨hclear, hfid' hexit, humask'.trans humask⟩⟩
    · have hset := hactive'.mpr hexit
      exact ⟨⟨hkept, fun h => absurd hset (by simp [h])⟩,
        fun h => absurd hset (by simp [h.active]), fun h => absurd (hsound' h) hexit⟩
  | error e s₁ =>
    rw [henter] at hspec
    obtain ⟨hkept, humask, ⟨hset, hunsound⟩ | ⟨hclear, hfid, hsound⟩⟩ := hspec
    · exact ⟨⟨hkept, fun h => absurd hset (by simp [h])⟩,
        fun h => absurd hset (by simp [h.active]), fun h => absurd h hunsound⟩
    · exact ⟨⟨hkept, fun _ => hfid⟩, fun _ => hsound, fun _ => ⟨hclear, hfid, humask⟩⟩

theorem runContext_of_active (c : Context) (hinv : Inv s) (hactive : s.isFileActive = true) :
    Inv (runContext c s) := by
  have hspec : wp (do secureMakeDirs c.dirs; enter c.lockName c.first c.second c.lock :
      Method Unit) (fun _ _ => False)
      (fun _ s' => Kept s' ∧ s'.isFileActive = true) s := by
    rw [wp_bind]
    refine wp_mono (secureMakeDirs_spec c.lockName c.dirs hinv.kept)
      (fun _ s₁ h₁ => ?_) fun _ s₁ h₁ => ?_
    · have hactive₁ : s₁.isFileActive = true := (congrArg Prod.fst h₁.2.1).trans hactive
      unfold enter rpcLock
      rw [wp_bind, wp_bind, wp_get, wp_ite]
      exact ⟨fun _ => ⟨h₁.1, hactive₁⟩, fun h => absurd hactive₁ h⟩
    · exact ⟨h₁.1, (congrArg Prod.fst h₁.2.1).trans hactive⟩
  unfold wp at hspec
  unfold runContext
  cases henter : (do secureMakeDirs c.dirs; enter c.lockName c.first c.second c.lock :
      Method Unit) s with
  | ok _ s₁ =>
    rw [henter] at hspec
    exact hspec.elim
  | error e s₁ =>
    rw [henter] at hspec
    exact ⟨hspec.1, fun h => absurd hspec.2 (by simp [h])⟩

theorem inv_step (hinv : Inv s) (a : Action) : Inv (step s a) := by
  cases a with
  | context c =>
    cases hactive : s.isFileActive with
    | false => exact (runContext_spec c hinv hactive).1
    | true => exact runContext_of_active c hinv hactive
  | restart => exact ⟨hinv.kept.congr rfl rfl, fun _ => rfl⟩

theorem inv_start (umask : ℕ) : Inv (start umask) :=
  ⟨⟨fun _ => digits_nil, .nil⟩, fun _ => rfl⟩

end Steps

theorem run_explains (umask : ℕ) (actions : List Action) :
    Explains (actions.foldl step (start umask)).log
      (actions.foldl step (start umask)).registers := by
  have hinv : Inv (actions.foldl step (start umask)) := by
    refine (Lts.reachable_foldl (start umask) actions).invariant (inv_start umask) ?_
    rintro s a _ hinv - rfl
    exact inv_step hinv a
  exact hinv.kept.explains

/-- Every context is released, and the results are those of registers. -/
def Releases (umask : ℕ) (actions : List Action) : Prop :=
  Lts.Along (fun s a => Released s (step s a)) step (start umask) actions ∧
    ∃ registers, Explains (actions.foldl step (start umask)).log registers

/-- The lock is a register that is always released, in the runs in which no call of the system
raises between setting the flag and clearing it, and in no others. -/
theorem along_released_iff (umask : ℕ) (actions : List Action) :
    Releases umask actions ↔ Lts.Along (fun s a => a.Sound s) step (start umask) actions := by
  suffices h : ∀ s, Inv s → s.isFileActive = false →
      (Lts.Along (fun s a => Released s (step s a)) step s actions ↔
        Lts.Along (fun s a => a.Sound s) step s actions) by
    rw [← h _ (inv_start umask) rfl]
    exact ⟨fun hreleases => hreleases.1,
      fun hreleased => ⟨hreleased, _, run_explains umask actions⟩⟩
  induction actions with
  | nil => exact fun _ _ _ => Iff.rfl
  | cons a actions ih =>
    intro s hinv hactive
    have hstep : Released s (step s a) ↔ a.Sound s := by
      cases a with
      | context c => exact (runContext_spec c hinv hactive).2
      | restart => exact ⟨fun _ => trivial, fun _ => ⟨rfl, rfl, rfl⟩⟩
    unfold Lts.Along
    rw [← hstep]
    exact and_congr_right fun hreleased => ih _ (inv_step hinv a) hreleased.active

/-- The advisory lock cannot be taken in the first context, which leaves the flag set. -/
theorem lockf_keeps_flag : ¬ Releases 0o022 [.context
    { lockName := "CONTROL_LOCK", lock := false, calls := [] }] := by
  rintro ⟨hreleased, -⟩
  exact absurd hreleased.1.active (by decide)

end Geopm.LockFile
