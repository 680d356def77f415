import Geopm.App.ProcCpuset
import Geopm.Lib.CpuSet

/-!
# The set of CPUs of a process

`geopm_sched_proc_cpuset` and `geopm_sched_woomp` read the mask of the process into a buffer of the
process, which has the size for the configured CPUs, and copy it into the set of the caller, which
has the size for the requested number of CPUs.

* `procCpusetPid`, `procCpusetOnce`, `procCpuset`, `woomp` : the functions; an access beyond a
  buffer has no result;
* `refilled` : what `procCpusetPid` leaves in a buffer that is large enough;
* `procCpuset_eq`, `woomp_eq` : what the callers get when the two sizes are equal;
* `procCpusetRight_iff`, `woompRight_iff` : when the functions stay within the buffers and give the
  allowed CPUs.
-/

namespace Geopm.Sched

open CpuSet
open List
open Option

/-! ### The functions -/

/-- What a call finds. -/
structure World where
  /-- The text of the status file, or the error for which it is not read. -/
  status : Except Code (List Char)
  /-- Whether `CPU_ALLOC` has a buffer, and what is in it. -/
  canAlloc : Bool
  garbage : ℕ → Bool
  /-- The CPUs that the OpenMP threads get from `sched_getcpu`, and the error when that fails. -/
  threads : List (Option ℕ)
  errno : Code

/-- `g_proc_cpuset`: before it is allocated, when it could not be, and its bits. -/
inductive ProcCpuset
  | unset
  | failed
  | allocated (bit : ℕ → Bool)

/-- The array of words in memory. -/
def wordsBuffer (words : List ℕ) : Buffer := ⟨4 * words.length, maskBit words⟩

/-- The words for a number of CPUs. -/
def readWords (numCpu : ℕ) (status : Except Code (List Char)) : Except Code (List ℕ) :=
  match status with
  | .error e => .error e
  | .ok text => procCpusetHelper numCpu (List.replicate (numRead numCpu) 0) text

/-- `geopm_sched_proc_cpuset_pid`. -/
def procCpusetPid (numCpu : ℕ) (status : Except Code (List Char)) (cpuset : Buffer) :
    Option (Option Code × Buffer) :=
  if numCpu = intMax then some (some .invalid, cpuset)
  else
    match readWords numCpu status with
    | .ok words => do
      let cpuset ← zero (allocSize numCpu) cpuset
      let cpuset ← copy (4 * numRead numCpu) (wordsBuffer words) cpuset
      some (none, cpuset)
    | .error e => do
      let cpuset ← assignRange true (allocSize numCpu) 0 numCpu cpuset
      some (some e, cpuset)

/-- What a call leaves: its error, the set of the caller and the buffer of the process. -/
structure Result where
  err : Option Code
  cpuset : Buffer
  proc : ProcCpuset

/-- The buffer of the process, whose size is for the configured CPUs. -/
def procBuffer (conf : ℕ) (bit : ℕ → Bool) : Buffer := ⟨allocSize conf, bit⟩

/-- `geopm_proc_cpuset_once`, through `pthread_once`. -/
def procCpusetOnce (conf : ℕ) (w : World) : ProcCpuset → Option ProcCpuset
  | .unset =>
    if w.canAlloc then do
      let (_, cpuset) ← procCpusetPid conf w.status (procBuffer conf w.garbage)
      some (.allocated cpuset.bit)
    else some .failed
  | s => some s

/-- `geopm_sched_proc_cpuset`. -/
def procCpuset (conf numCpu : ℕ) (w : World) (s : ProcCpuset) (cpuset : Buffer) :
    Option Result :=
  if numCpu = 0 ∨ numCpu = intMax then some ⟨some .invalid, cpuset, s⟩
  else do
    let s ← procCpusetOnce conf w s
    match s with
    | .allocated bit => do
      let (_, buffer) ← procCpusetPid numCpu w.status (procBuffer conf bit)
      if conf = 0 ∨ conf = intMax then some ⟨some .logic, cpuset, .allocated buffer.bit⟩
      else if allocSize numCpu < allocSize conf then
        some ⟨some .invalid, cpuset, .allocated buffer.bit⟩
      else do
        let cpuset ← zero (allocSize numCpu) cpuset
        let cpuset ← copy (allocSize conf) buffer cpuset
        let cpuset ← assignRange false (allocSize numCpu) conf numCpu cpuset
        some ⟨none, cpuset, .allocated buffer.bit⟩
    | s => some ⟨some .enomem, cpuset, s⟩

/-- The threads of the parallel region, one after the other. -/
def clearThreads (numCpu setsize : ℕ) (e : Code) :
    List (Option ℕ) → Option Code → Buffer → Option (Option Code × Buffer)
  | [], err, woomp => some (err, woomp)
  | some cpu :: threads, err, woomp =>
    if cpu < numCpu then do
      let woomp ← assign false setsize woomp cpu
      clearThreads numCpu setsize e threads err woomp
    else clearThreads numCpu setsize e threads (some e) woomp
  | none :: threads, _, woomp => clearThreads numCpu setsize e threads (some e) woomp

/-- `geopm_sched_woomp`. -/
def woomp (conf numCpu : ℕ) (w : World) (s : ProcCpuset) (woomp : Buffer) : Option Result :=
  if numCpu = 0 ∨ numCpu = intMax then some ⟨some .invalid, woomp, s⟩
  else do
    let s ← procCpusetOnce conf w s
    match s with
    | .allocated bit => do
      let (_, buffer) ← procCpusetPid numCpu w.status (procBuffer conf bit)
      if conf = 0 ∨ conf = intMax then some ⟨some .logic, woomp, .allocated buffer.bit⟩
      else do
        let (err, woomp) ←
          if allocSize numCpu < allocSize conf then some (some .einval, woomp)
          else do
            let woomp ← zero (allocSize numCpu) woomp
            let woomp ← copy (allocSize conf) buffer woomp
            clearThreads numCpu (allocSize conf) w.errno w.threads none woomp
        let woomp ←
          if err = none then assignRange false (allocSize numCpu) conf numCpu woomp
          else some woomp
        let isOpen ←
          if err = none then do
            let num ← count (allocSize conf) woomp
            some (num = 0 : Bool)
          else some true
        let woomp ←
          if isOpen then assignRange true (allocSize conf) 0 numCpu woomp else some woomp
        some ⟨err, woomp, .allocated buffer.bit⟩
    | s => some ⟨some .enomem, woomp, s⟩

/-! ### What the functions are for -/

/-- The mask of the status file. -/
def statusMask (w : World) : Option (List ℕ) :=
  match w.status with
  | .error _ => none
  | .ok text => mask text

/-- An allowed CPU below both numbers of CPUs. -/
def Allowed (conf numCpu : ℕ) (m : List ℕ) (cpu : ℕ) : Prop :=
  maskBit m cpu = true ∧ cpu < numCpu ∧ cpu < conf

/-- The CPUs of a set that no thread uses, or all of them when there are none. -/
def Spare (numCpu : ℕ) (threads : List (Option ℕ)) (S : ℕ → Prop) (cpu : ℕ) : Prop :=
  (S cpu ∧ some cpu ∉ threads) ∨ ((∀ other, S other → some other ∈ threads) ∧ cpu < numCpu)

/-- The array gets the lowest words of the mask, unless there is an error. -/
def HelperRight (numCpu : ℕ) (cpuset : List ℕ) (text : List Char) : Prop :=
  ∀ words, procCpusetHelper numCpu cpuset text = .ok words →
    ∃ m, mask text = some m ∧ words.length = numRead numCpu ∧
      ∀ cpu < 32 * numRead numCpu, maskBit words cpu = maskBit m cpu

/-- A call of `geopm_sched_proc_cpuset` stays within the buffers, and without an error the set of
the caller has the allowed CPUs. -/
def ProcCpusetRight (conf numCpu : ℕ) (w : World) (s : ProcCpuset) (bit : ℕ → Bool) : Prop :=
  ∃ r, procCpuset conf numCpu w s ⟨allocSize numCpu, bit⟩ = some r ∧
    (r.err = none → ∃ m, statusMask w = some m ∧
      ∀ cpu < 8 * allocSize numCpu, r.cpuset.bit cpu = true ↔ Allowed conf numCpu m cpu)

/-- The same for `geopm_sched_woomp`, without the CPUs of the threads. -/
def WoompRight (conf numCpu : ℕ) (w : World) (s : ProcCpuset) (bit : ℕ → Bool) : Prop :=
  ∃ r, woomp conf numCpu w s ⟨allocSize numCpu, bit⟩ = some r ∧
    (r.err = none → ∃ m, statusMask w = some m ∧ ∀ cpu < 8 * allocSize numCpu,
      r.cpuset.bit cpu = true ↔ Spare numCpu w.threads (Allowed conf numCpu m) cpu)

/-! ### When they do it -/

/-- There is no buffer of the process, which is an error. -/
def NoBuffer (w : World) : ProcCpuset → Prop
  | .unset => w.canAlloc = false
  | .failed => True
  | .allocated _ => False

/-- No CPU of a mask is in the words that are read but not below the number of CPUs. -/
def NoneBeyond (numCpu : ℕ) (m : List ℕ) : Prop :=
  ∀ cpu, numCpu ≤ cpu → cpu < 32 * numRead numCpu → maskBit m cpu = false

/-- When the mask is too short to be read, nothing is in the buffer of the process from the number
of CPUs on. -/
def Clean (conf numCpu : ℕ) (w : World) (m : List ℕ) : ProcCpuset → Prop
  | .unset => numRead conf ≤ m.length ∨
      (conf ≤ numCpu ∧ ∀ cpu, numCpu ≤ cpu → cpu < 8 * allocSize numCpu → w.garbage cpu = false)
  | .failed => True
  | .allocated bit => ∀ cpu, numCpu ≤ cpu → cpu < 8 * allocSize numCpu → bit cpu = false

/-- The CPUs below both numbers, which the set has when the mask is too short to be read. -/
def Every (conf numCpu cpu : ℕ) : Prop := cpu < numCpu ∧ cpu < conf

/-- The condition for `geopm_sched_proc_cpuset`. -/
def ProcCpusetHolds (conf numCpu : ℕ) (w : World) (s : ProcCpuset) : Prop :=
  numCpu = intMax ∨ NoBuffer w s ∨ allocSize numCpu < allocSize conf ∨
    allocSize numCpu = allocSize conf ∧ (conf = intMax ∨ ∃ m, statusMask w = some m ∧
      (numRead numCpu ≤ m.length ∧ NoneBeyond numCpu m ∨
        m.length < numRead numCpu ∧ Clean conf numCpu w m s ∧
          ∀ cpu, Every conf numCpu cpu → maskBit m cpu = true))

/-- A thread whose CPU is not known, or not below the number of CPUs, which is an error. -/
def ThreadFails (numCpu : ℕ) (w : World) : Prop :=
  none ∈ w.threads ∨ ∃ cpu, some cpu ∈ w.threads ∧ numCpu ≤ cpu

/-- The condition for `geopm_sched_woomp`. -/
def WoompHolds (conf numCpu : ℕ) (w : World) (s : ProcCpuset) : Prop :=
  numCpu = intMax ∨ NoBuffer w s ∨ allocSize numCpu < allocSize conf ∨
    allocSize numCpu = allocSize conf ∧ (conf = intMax ∨ ThreadFails numCpu w ∨
      ∃ m, statusMask w = some m ∧
        (numRead numCpu ≤ m.length ∧ NoneBeyond numCpu m ∨
          m.length < numRead numCpu ∧ Clean conf numCpu w m s ∧
            ∀ cpu, Spare numCpu w.threads (Every conf numCpu) cpu ↔
              Spare numCpu w.threads (Allowed conf numCpu m) cpu))

variable {conf numCpu : ℕ} {w : World} {s : ProcCpuset} {b : Buffer} {bit : ℕ → Bool}
  {status : Except Code (List Char)} {m : List ℕ}

/-! ### Sizes -/

theorem allocSize_numRead (numCpu : ℕ) : 4 * numRead numCpu ≤ allocSize numCpu := by
  have h := numRead_le numCpu
  rw [allocSize]
  omega

theorem le_allocSize (numCpu : ℕ) : numCpu ≤ 8 * allocSize numCpu := by
  rw [allocSize]
  omega

/-- Two numbers of CPUs whose sets have one size. -/
theorem pos_of_allocSize_eq (hpos : 0 < numCpu) (h : allocSize numCpu = allocSize conf) :
    0 < conf := by
  simp only [allocSize] at h
  omega

theorem length_of_readWords {words : List ℕ} (hmax : numCpu ≠ intMax)
    (h : readWords numCpu status = .ok words) : numRead numCpu ≤ words.length := by
  obtain rfl | hpos := Nat.eq_zero_or_pos numCpu
  · exact Nat.zero_le _
  · cases status with
    | error e => cases h
    | ok text =>
      obtain ⟨⟨-, hall⟩, last, hlast, rfl⟩ :=
        (procCpusetHelper_eq_ok_iff hpos hmax length_replicate).mp h
      exact (length_lineWords (hall last (mem_of_getLast? hlast)).1).ge

/-! ### The buffer of the process -/

/-- What is in a buffer after it has been filled. -/
def refilled (numCpu : ℕ) (status : Except Code (List Char)) (bit : ℕ → Bool) (cpu : ℕ) : Bool :=
  match readWords numCpu status with
  | .ok words =>
    if cpu < 32 * numRead numCpu then maskBit words cpu
    else if cpu < 8 * allocSize numCpu then false
    else bit cpu
  | .error _ => if cpu < numCpu then true else bit cpu

/-- A buffer that is large enough. -/
theorem procCpusetPid_eq (status : Except Code (List Char)) (hmax : numCpu ≠ intMax)
    (h : allocSize numCpu ≤ b.size) :
    ∃ err, procCpusetPid numCpu status b = some (err, ⟨b.size, refilled numCpu status b.bit⟩) := by
  have hnum := allocSize_numRead numCpu
  have hle := le_allocSize numCpu
  rw [procCpusetPid, if_neg hmax]
  cases hwords : readWords numCpu status with
  | ok words =>
    have hlength := length_of_readWords hmax hwords
    refine ⟨none, ?_⟩
    dsimp only
    rw [zero, if_pos h, bind_eq_bind, bind_some, copy,
      if_pos ⟨Nat.mul_le_mul_left 4 hlength, by dsimp only; omega⟩, bind_some]
    congr 3
    funext cpu
    rw [refilled, hwords]
    dsimp only [wordsBuffer]
    rw [← Nat.mul_assoc]
  | error e =>
    refine ⟨some e, ?_⟩
    dsimp only
    rw [assignRange_eq h, bind_eq_bind, bind_some]
    congr 3
    funext cpu
    rw [refilled, hwords]
    dsimp only
    by_cases hcpu : cpu < numCpu
    · rw [if_pos hcpu, if_pos (by omega)]
    · rw [if_neg hcpu, if_neg (by omega)]

theorem procCpusetPid_eq_none (hpos : 0 < numCpu) (hmax : numCpu ≠ intMax)
    (h : b.size < allocSize numCpu) : procCpusetPid numCpu status b = none := by
  rw [procCpusetPid, if_neg hmax]
  cases readWords numCpu status with
  | ok words =>
    dsimp only
    rw [zero, if_neg h.not_ge]
    rfl
  | error e =>
    dsimp only
    rw [assignRange_eq_none hpos h]
    rfl

/-- What is in the buffer of the process once it is allocated. -/
def filled (conf : ℕ) (w : World) : ProcCpuset → ℕ → Bool
  | .unset => if conf = intMax then w.garbage else refilled conf w.status w.garbage
  | .failed => w.garbage
  | .allocated bit => bit

theorem procCpusetOnce_eq (h : ¬ NoBuffer w s) :
    procCpusetOnce conf w s = some (.allocated (filled conf w s)) := by
  cases s with
  | unset =>
    have halloc : w.canAlloc = true := by simpa [NoBuffer] using h
    rw [procCpusetOnce, if_pos halloc, filled]
    by_cases hconf : conf = intMax
    · rw [if_pos hconf, procCpusetPid, if_pos hconf]
      rfl
    · obtain ⟨err, hpid⟩ := procCpusetPid_eq w.status (b := procBuffer conf w.garbage)
        hconf le_rfl
      rw [if_neg hconf, hpid]
      rfl
  | failed => exact absurd trivial h
  | allocated bit => rfl

theorem procCpusetOnce_of_noBuffer (h : NoBuffer w s) :
    procCpusetOnce conf w s = some .failed := by
  cases s with
  | unset =>
    have halloc : w.canAlloc = false := h
    rw [procCpusetOnce, halloc]
    rfl
  | failed => rfl
  | allocated bit => exact h.elim

/-! ### The set of the caller -/

/-- What the set of the caller gets when the sizes are equal. -/
def got (conf numCpu : ℕ) (w : World) (s : ProcCpuset) (cpu : ℕ) : Bool :=
  if conf ≤ cpu ∧ cpu < numCpu then false
  else refilled numCpu w.status (filled conf w s) cpu

/-- Copying into a set of the same size. -/
theorem copy_zero_eq (bit : ℕ → Bool) (h : allocSize numCpu = allocSize conf)
    (bit' : ℕ → Bool) :
    ((zero (allocSize numCpu) ⟨allocSize numCpu, bit⟩).bind fun cpuset =>
      copy (allocSize conf) (procBuffer conf bit') cpuset) =
      some ⟨allocSize numCpu, fun cpu =>
        if cpu < 8 * allocSize numCpu then bit' cpu else bit cpu⟩ := by
  rw [zero, if_pos le_rfl, bind_some, copy, if_pos ⟨le_rfl, h.ge⟩]
  congr 2
  funext cpu
  dsimp only [procBuffer]
  rw [h]
  by_cases hcpu : cpu < 8 * allocSize conf
  · rw [if_pos hcpu, if_pos hcpu]
  · rw [if_neg hcpu, if_neg hcpu, if_neg hcpu]

/-- `geopm_sched_proc_cpuset` when the sizes are equal. -/
theorem procCpuset_eq (bit : ℕ → Bool) (hpos : 0 < numCpu) (hmax : numCpu ≠ intMax) (hconf : conf ≠ intMax)
    (hbuffer : ¬ NoBuffer w s) (h : allocSize numCpu = allocSize conf) :
    ∃ r, procCpuset conf numCpu w s ⟨allocSize numCpu, bit⟩ = some r ∧ r.err = none ∧
      ∀ cpu < 8 * allocSize numCpu, r.cpuset.bit cpu = got conf numCpu w s cpu := by
  obtain ⟨err, hpid⟩ := procCpusetPid_eq w.status
    (b := procBuffer conf (filled conf w s)) hmax h.le
  have hcopy := copy_zero_eq bit h (refilled numCpu w.status (filled conf w s))
  have hconfPos := pos_of_allocSize_eq hpos h
  rw [procCpuset, if_neg (by omega), procCpusetOnce_eq hbuffer]
  simp only [bind_eq_bind, bind_some]
  rw [hpid]
  simp only [bind_some]
  rw [if_neg (by omega), if_neg h.not_lt, ← bind_assoc]
  change ∃ r, Option.bind (Option.bind _ fun cpuset =>
    copy (allocSize conf) (procBuffer conf (refilled numCpu w.status (filled conf w s))) cpuset) _ =
      some r ∧ _
  rw [hcopy, bind_some, assignRange_eq le_rfl, bind_some]
  refine ⟨_, rfl, rfl, fun cpu hcpu => ?_⟩
  dsimp only
  rw [got, if_pos hcpu]
  by_cases hclear : conf ≤ cpu ∧ cpu < numCpu
  · rw [if_pos ⟨hclear.1, hclear.2, hcpu⟩, if_pos hclear]
  · rw [if_neg fun h => hclear ⟨h.1, h.2.1⟩, if_neg hclear]

theorem clearThreads_eq (e : Code) (threads : List (Option ℕ)) (err : Option Code)
    (h : allocSize conf ≤ b.size) (hle : allocSize numCpu ≤ allocSize conf) :
    ∃ err', clearThreads numCpu (allocSize conf) e threads err b = some (err', ⟨b.size, fun cpu =>
        if cpu < numCpu ∧ some cpu ∈ threads then false else b.bit cpu⟩) ∧
      (err' = none ↔ err = none ∧ none ∉ threads ∧ ∀ cpu, some cpu ∈ threads → cpu < numCpu) := by
  have hwords := le_allocSize numCpu
  induction threads generalizing err b with
  | nil => exact ⟨err, by simp [clearThreads], by simp⟩
  | cons thread threads ih =>
    cases thread with
    | none =>
      obtain ⟨err', heq, herr⟩ := ih (some e) h
      exact ⟨err', by simpa [clearThreads] using heq, by simpa using herr⟩
    | some cpu =>
      by_cases hcpu : cpu < numCpu
      · obtain ⟨err', heq, herr⟩ := ih (b := ⟨b.size, fun i =>
          if i = cpu ∧ i < 8 * allocSize conf then false else b.bit i⟩) err h
        refine ⟨err', ?_, ?_⟩
        · rw [clearThreads, if_pos hcpu, assign_eq h, bind_eq_bind, bind_some, heq]
          congr 3
          funext i
          dsimp only
          by_cases hi : i = cpu
          · subst hi
            simp [hcpu, show i < 8 * allocSize conf by omega]
          · simp [hi]
        · rw [herr]
          simp only [mem_cons, Option.some.injEq, reduceCtorEq, false_or]
          constructor
          · rintro ⟨hnone, hmem, hall⟩
            exact ⟨hnone, hmem, fun i hi => hi.elim (fun heq => heq ▸ hcpu) (hall i)⟩
          · rintro ⟨hnone, hmem, hall⟩
            exact ⟨hnone, hmem, fun i hi => hall i (.inr hi)⟩
      · obtain ⟨err', heq, herr⟩ := ih (some e) h
        refine ⟨err', ?_, ?_⟩
        · rw [clearThreads, if_neg hcpu, heq]
          congr 3
          funext i
          by_cases hi : i = cpu
          · subst hi
            simp [hcpu]
          · simp [hi]
        · have hnot : err' ≠ none := by simpa using herr
          refine ⟨fun h => absurd h hnot, fun h => absurd (h.2.2 cpu (by simp)) hcpu⟩

theorem not_threadFails_iff : ¬ ThreadFails numCpu w ↔
    none ∉ w.threads ∧ ∀ cpu, some cpu ∈ w.threads → cpu < numCpu := by
  simp only [ThreadFails, not_or, not_exists, not_and, Nat.not_le]

/-- `geopm_sched_woomp` when the sizes are equal. -/
theorem woomp_eq (bit : ℕ → Bool) (hpos : 0 < numCpu) (hmax : numCpu ≠ intMax) (hconf : conf ≠ intMax)
    (hbuffer : ¬ NoBuffer w s) (h : allocSize numCpu = allocSize conf) :
    ∃ r, woomp conf numCpu w s ⟨allocSize numCpu, bit⟩ = some r ∧
      (r.err = none ↔ ¬ ThreadFails numCpu w) ∧
      (¬ ThreadFails numCpu w → ∀ cpu < 8 * allocSize numCpu, r.cpuset.bit cpu = true ↔
        Spare numCpu w.threads
          (fun cpu => cpu < 8 * allocSize numCpu ∧ got conf numCpu w s cpu = true) cpu) := by
  obtain ⟨err, hpid⟩ := procCpusetPid_eq w.status
    (b := procBuffer conf (filled conf w s)) hmax h.le
  have hcopy := copy_zero_eq bit h (refilled numCpu w.status (filled conf w s))
  have hconfPos := pos_of_allocSize_eq hpos h
  have hwords := le_allocSize numCpu
  obtain ⟨err', hclear, herr⟩ := clearThreads_eq
    (b := ⟨allocSize numCpu, fun cpu => if cpu < 8 * allocSize numCpu then
      refilled numCpu w.status (filled conf w s) cpu else bit cpu⟩) w.errno w.threads none
    h.ge h.le
  have hfails : err' = none ↔ ¬ ThreadFails numCpu w := by
    rw [herr, not_threadFails_iff]
    exact ⟨fun h => h.2, fun h => ⟨rfl, h⟩⟩
  rw [woomp, if_neg (by omega), procCpusetOnce_eq hbuffer]
  simp only [bind_eq_bind, bind_some]
  rw [hpid]
  simp only [bind_some]
  rw [if_neg (by omega), if_neg h.not_lt, ← bind_assoc]
  change ∃ r, Option.bind (Option.bind _ fun cpuset =>
    copy (allocSize conf) (procBuffer conf (refilled numCpu w.status (filled conf w s))) cpuset) _ =
      some r ∧ _
  rw [hcopy, bind_some, hclear, bind_some]
  cases err' with
  | some e =>
    obtain ⟨b', hb'⟩ := exists_assignRange true (b := ⟨allocSize numCpu, fun cpu =>
      if cpu < numCpu ∧ some cpu ∈ w.threads then false else
        if cpu < 8 * allocSize numCpu then refilled numCpu w.status (filled conf w s) cpu
        else bit cpu⟩) (allocSize conf) 0 (le_refl (allocSize numCpu))
    simp only [reduceCtorEq, if_false, if_true]
    rw [hb', bind_some]
    exact ⟨_, rfl, hfails, fun hnot => absurd (hfails.mpr hnot) (by simp)⟩
  | none =>
    have hnot := hfails.mp rfl
    have hthreads := (not_threadFails_iff.mp hnot).2
    simp only [if_true]
    rw [assignRange_eq le_rfl, bind_some]
    generalize hleft : (fun cpu => if conf ≤ cpu ∧ cpu < numCpu ∧ cpu < 8 * allocSize numCpu then
      false else _) = left
    -- the CPUs that no thread uses
    have hleft_iff : ∀ cpu < 8 * allocSize numCpu, left cpu = true ↔
        got conf numCpu w s cpu = true ∧ some cpu ∉ w.threads := by
      intro cpu hcpu
      rw [← hleft]
      dsimp only
      rw [got, if_pos hcpu]
      by_cases hout : conf ≤ cpu ∧ cpu < numCpu
      · rw [if_pos ⟨hout.1, hout.2, hcpu⟩, if_pos hout]
        simp
      · rw [if_neg fun h => hout ⟨h.1, h.2.1⟩, if_neg hout]
        by_cases hused : some cpu ∈ w.threads
        · simp [hused, hthreads cpu hused]
        · simp [hused]
    obtain ⟨num, hnum, hzero⟩ := count_eq_zero_iff (b := ⟨allocSize numCpu, left⟩) h.ge
    rw [hnum, bind_some]
    by_cases hnone : num = 0
    · rw [if_pos (by simpa using hnone), assignRange_eq h.ge, bind_some]
      refine ⟨_, rfl, hfails, fun _ cpu hcpu => ?_⟩
      dsimp only
      have hall : ∀ i < 8 * allocSize numCpu, left i = false := h ▸ hzero.mp hnone
      rw [hall cpu hcpu, ← h, Spare]
      have hused : ∀ other, other < 8 * allocSize numCpu ∧ got conf numCpu w s other = true →
          some other ∈ w.threads := by
        rintro other ⟨hother, hgot⟩
        by_contra hfree
        have htrue := (hleft_iff other hother).mpr ⟨hgot, hfree⟩
        rw [hall other hother] at htrue
        cases htrue
      by_cases hlt : cpu < numCpu
      · rw [if_pos ⟨Nat.zero_le _, hlt, hcpu⟩]
        exact ⟨fun _ => .inr ⟨hused, hlt⟩, fun _ => rfl⟩
      · rw [if_neg fun h => hlt h.2.1]
        refine ⟨nofun, ?_⟩
        rintro (⟨hS, hfree⟩ | ⟨-, h⟩)
        · exact absurd (hused cpu hS) hfree
        · exact absurd h hlt
    · rw [if_neg (by simpa using hnone)]
      refine ⟨_, rfl, hfails, fun _ cpu hcpu => ?_⟩
      dsimp only
      rw [hleft_iff cpu hcpu, Spare]
      refine ⟨fun h => .inl ⟨⟨hcpu, h.1⟩, h.2⟩, ?_⟩
      rintro (⟨hS, hfree⟩ | ⟨hused, -⟩)
      · exact ⟨hS.2, hfree⟩
      · refine absurd (hzero.mpr fun other hother => ?_) hnone
        rw [← h] at hother
        by_contra hbit
        have hother' := (hleft_iff other hother).mp (by simpa using hbit)
        exact hother'.2 (hused other ⟨hother, hother'.1⟩)

/-! ### Of a text with a mask -/

theorem maskBit_take {k cpu : ℕ} (h : cpu < 32 * k) : maskBit (m.take k) cpu = maskBit m cpu := by
  have hword : cpu / 32 < k := by omega
  simp only [maskBit, getD_eq_getElem?_getD, getElem?_take_of_lt hword]

theorem maskBit_of_length {cpu : ℕ} (h : 32 * m.length ≤ cpu) : maskBit m cpu = false := by
  have hword : m.length ≤ cpu / 32 := by omega
  simp [maskBit, getElem?_eq_none hword]

theorem readWords_of_mask (hpos : 0 < numCpu) (hmax : numCpu ≠ intMax)
    (hm : statusMask w = some m) (words : List ℕ) : readWords numCpu w.status = .ok words ↔
      numRead numCpu ≤ m.length ∧ words = m.take (numRead numCpu) := by
  rw [statusMask] at hm
  cases hstatus : w.status with
  | error e => rw [hstatus] at hm; cases hm
  | ok text =>
    rw [hstatus] at hm
    exact procCpusetHelper_of_mask hpos hmax length_replicate hm

theorem refilled_of_le (hpos : 0 < numCpu) (hmax : numCpu ≠ intMax) (hm : statusMask w = some m)
    (hle : numRead numCpu ≤ m.length) (cpu : ℕ) : refilled numCpu w.status bit cpu =
      if cpu < 32 * numRead numCpu then maskBit m cpu
      else if cpu < 8 * allocSize numCpu then false
      else bit cpu := by
  rw [refilled, (readWords_of_mask hpos hmax hm _).mpr ⟨hle, rfl⟩]
  dsimp only
  by_cases hcpu : cpu < 32 * numRead numCpu
  · rw [if_pos hcpu, if_pos hcpu, maskBit_take hcpu]
  · rw [if_neg hcpu, if_neg hcpu]

theorem refilled_of_lt (hpos : 0 < numCpu) (hmax : numCpu ≠ intMax) (hm : statusMask w = some m)
    (hlt : m.length < numRead numCpu) (cpu : ℕ) : refilled numCpu w.status bit cpu =
      if cpu < numCpu then true else bit cpu := by
  rw [refilled]
  cases hwords : readWords numCpu w.status with
  | ok words => exact absurd ((readWords_of_mask hpos hmax hm words).mp hwords).1 hlt.not_ge
  | error e => rfl

theorem got_of_le (conf : ℕ) (s : ProcCpuset) (hpos : 0 < numCpu) (hmax : numCpu ≠ intMax) (hm : statusMask w = some m)
    (hle : numRead numCpu ≤ m.length) {cpu : ℕ} (hcpu : cpu < 8 * allocSize numCpu) :
    got conf numCpu w s cpu = true ↔
      maskBit m cpu = true ∧ cpu < 32 * numRead numCpu ∧ ¬ (conf ≤ cpu ∧ cpu < numCpu) := by
  rw [got, refilled_of_le hpos hmax hm hle]
  by_cases hout : conf ≤ cpu ∧ cpu < numCpu
  · simp [hout]
  · rw [if_neg hout]
    by_cases hword : cpu < 32 * numRead numCpu
    · rw [if_pos hword]
      simp [hword, hout]
    · simp [hword, hcpu]

theorem got_of_lt (hpos : 0 < numCpu) (hmax : numCpu ≠ intMax) (hm : statusMask w = some m)
    (hlt : m.length < numRead numCpu) (cpu : ℕ) : got conf numCpu w s cpu = true ↔
      Every conf numCpu cpu ∨ (numCpu ≤ cpu ∧ filled conf w s cpu = true) := by
  rw [got, refilled_of_lt hpos hmax hm hlt, Every]
  by_cases hcpu : cpu < numCpu
  · by_cases hconf : conf ≤ cpu
    · simp [hcpu, hconf]
    · simp [hcpu, Nat.lt_of_not_le hconf]
  · simp [hcpu, Nat.le_of_not_lt hcpu]

theorem length_le_of_lt (hlt : m.length < numRead numCpu) : 32 * m.length ≤ numCpu := by
  have h := numRead_le numCpu
  omega

theorem clean_iff (hpos : 0 < numCpu) (hconf : conf ≠ intMax) (hbuffer : ¬ NoBuffer w s)
    (h : allocSize numCpu = allocSize conf) (hm : statusMask w = some m)
    (hlt : m.length < numRead numCpu) :
    (∀ cpu, numCpu ≤ cpu → cpu < 8 * allocSize numCpu → filled conf w s cpu = false) ↔
      Clean conf numCpu w m s := by
  have hconfPos := pos_of_allocSize_eq hpos h
  cases s with
  | failed => exact absurd trivial hbuffer
  | allocated bit => rfl
  | unset =>
    rw [filled, if_neg hconf, Clean]
    by_cases hle : numRead conf ≤ m.length
    · refine ⟨fun _ => .inl hle, fun _ cpu hcpu hsize => ?_⟩
      have hlength := length_le_of_lt hlt
      rw [refilled_of_le hconfPos hconf hm hle, maskBit_of_length (hlength.trans hcpu),
        if_pos (show cpu < 8 * allocSize conf by omega), ite_self]
    · simp only [refilled_of_lt hconfPos hconf hm (Nat.lt_of_not_le hle), hle, false_or]
      constructor
      · intro hall
        have hle : conf ≤ numCpu := by
          by_contra hgt
          have hsize := le_allocSize conf
          have hbit := hall numCpu le_rfl (by omega)
          rw [if_pos (by omega)] at hbit
          cases hbit
        refine ⟨hle, fun cpu hcpu hsize => ?_⟩
        have hbit := hall cpu hcpu hsize
        rwa [if_neg (by omega)] at hbit
      · rintro ⟨hle, hall⟩ cpu hcpu hsize
        rw [if_neg (by omega)]
        exact hall cpu hcpu hsize

/-! ### When the functions are right -/

/-- `geopm_sched_proc_cpuset_helper` returns the words of a mask unless the text has none and can
be read all the same. -/
theorem helperRight_iff {text : List Char} {cpuset : List ℕ} (hpos : 0 < numCpu)
    (hcpuset : cpuset.length = numRead numCpu) : HelperRight numCpu cpuset text ↔
      numCpu = intMax ∨ (mask text).isSome = true ∨ ¬ Scans numCpu text := by
  by_cases hmax : numCpu = intMax
  · refine ⟨fun _ => .inl hmax, fun _ words h => ?_⟩
    rw [procCpusetHelper, if_pos hmax] at h
    cases h
  · have hscans := exists_procCpusetHelper_iff text hpos hmax hcpuset
    constructor
    · intro hright
      by_cases hscan : Scans numCpu text
      · obtain ⟨words, hwords⟩ := hscans.mpr hscan
        obtain ⟨m, hm, -⟩ := hright words hwords
        exact .inr (.inl (by rw [hm]; rfl))
      · exact .inr (.inr hscan)
    · rintro (h | h | h) words hwords
      · exact absurd h hmax
      · obtain ⟨m, hm⟩ := isSome_iff_exists.mp h
        obtain ⟨hle, rfl⟩ := (procCpusetHelper_of_mask hpos hmax hcpuset hm).mp hwords
        exact ⟨m, hm, length_take_of_le hle, fun cpu hcpu => maskBit_take hcpu⟩
      · exact absurd (hscans.mp ⟨words, hwords⟩) h

/-- The caller gets the allowed CPUs. -/
theorem got_iff_allowed (hpos : 0 < numCpu) (hmax : numCpu ≠ intMax) (hconf : conf ≠ intMax)
    (hbuffer : ¬ NoBuffer w s) (h : allocSize numCpu = allocSize conf)
    (hm : statusMask w = some m) :
    (∀ cpu < 8 * allocSize numCpu,
      got conf numCpu w s cpu = true ↔ Allowed conf numCpu m cpu) ↔
      (numRead numCpu ≤ m.length ∧ NoneBeyond numCpu m ∨
        m.length < numRead numCpu ∧ Clean conf numCpu w m s ∧
          ∀ cpu, Every conf numCpu cpu → maskBit m cpu = true) := by
  have hwords := le_allocSize numCpu
  have hnum := allocSize_numRead numCpu
  have hround := le_numRead numCpu
  by_cases hle : numRead numCpu ≤ m.length
  · have hnot : ¬ m.length < numRead numCpu := hle.not_gt
    simp only [hle, hnot, true_and, false_and, or_false]
    constructor
    · intro hall cpu hcpu hword
      by_contra hbit
      have hgot := (got_of_le conf s hpos hmax hm hle (by omega)).mpr
        ⟨by simpa using hbit, hword, by omega⟩
      exact absurd ((hall cpu (by omega)).mp hgot).2.1 (by omega)
    · intro hnone cpu hcpu
      rw [got_of_le conf s hpos hmax hm hle hcpu, Allowed]
      refine and_congr_right fun hbit => ?_
      constructor
      · rintro ⟨hword, hin⟩
        have hlt : cpu < numCpu := by
          by_contra hge
          rw [hnone cpu (by omega) hword] at hbit
          cases hbit
        omega
      · omega
  · have hlt : m.length < numRead numCpu := Nat.lt_of_not_le hle
    simp only [hle, hlt, true_and, false_and, false_or]
    rw [← clean_iff hpos hconf hbuffer h hm hlt]
    constructor
    · intro hall
      constructor
      · intro cpu hcpu hsize
        by_contra hbit
        have hgot := (got_of_lt hpos hmax hm hlt cpu).mpr (.inr ⟨hcpu, by simpa using hbit⟩)
        exact absurd ((hall cpu hsize).mp hgot).2.1 (by omega)
      · intro cpu hevery
        have hsize : cpu < 8 * allocSize numCpu := hevery.1.trans_le hwords
        exact ((hall cpu hsize).mp ((got_of_lt hpos hmax hm hlt cpu).mpr (.inl hevery))).1
    · rintro ⟨hclean, hevery⟩ cpu hcpu
      rw [got_of_lt hpos hmax hm hlt, Allowed]
      constructor
      · rintro (h | ⟨hge, hbit⟩)
        · exact ⟨hevery cpu h, h⟩
        · rw [hclean cpu hge hcpu] at hbit
          cases hbit
      · exact fun h => .inl h.2

section Calls

/-- A call that has no buffer of the process, or gets `INT_MAX`, reports an error. -/
theorem procCpuset_of_noBuffer (conf : ℕ) (h : numCpu = intMax ∨ NoBuffer w s) :
    ∃ r, procCpuset conf numCpu w s b = some r ∧ r.err ≠ none := by
  rw [procCpuset]
  by_cases hmax : numCpu = 0 ∨ numCpu = intMax
  · rw [if_pos hmax]
    exact ⟨_, rfl, nofun⟩
  · have hbuffer := h.resolve_left fun h => hmax (.inr h)
    rw [if_neg hmax, procCpusetOnce_of_noBuffer hbuffer]
    exact ⟨_, rfl, nofun⟩

theorem woomp_of_noBuffer (conf : ℕ) (h : numCpu = intMax ∨ NoBuffer w s) :
    ∃ r, woomp conf numCpu w s b = some r ∧ r.err ≠ none := by
  rw [woomp]
  by_cases hmax : numCpu = 0 ∨ numCpu = intMax
  · rw [if_pos hmax]
    exact ⟨_, rfl, nofun⟩
  · have hbuffer := h.resolve_left fun h => hmax (.inr h)
    rw [if_neg hmax, procCpusetOnce_of_noBuffer hbuffer]
    exact ⟨_, rfl, nofun⟩

variable (hpos : 0 < numCpu) (hmax : numCpu ≠ intMax) (hbuffer : ¬ NoBuffer w s)

include hpos hmax hbuffer

theorem procCpuset_of_gt (h : allocSize conf < allocSize numCpu) :
    procCpuset conf numCpu w s b = none := by
  rw [procCpuset, if_neg (by omega), procCpusetOnce_eq hbuffer]
  simp only [bind_eq_bind, bind_some]
  rw [procCpusetPid_eq_none hpos hmax h]
  rfl

theorem woomp_of_gt (h : allocSize conf < allocSize numCpu) :
    woomp conf numCpu w s b = none := by
  rw [woomp, if_neg (by omega), procCpusetOnce_eq hbuffer]
  simp only [bind_eq_bind, bind_some]
  rw [procCpusetPid_eq_none hpos hmax h]
  rfl

theorem procCpuset_of_lt (hle : allocSize numCpu ≤ allocSize conf)
    (h : conf = intMax ∨ allocSize numCpu < allocSize conf) :
    ∃ r, procCpuset conf numCpu w s b = some r ∧ r.err ≠ none := by
  obtain ⟨err, hpid⟩ := procCpusetPid_eq w.status
    (b := procBuffer conf (filled conf w s)) hmax hle
  rw [procCpuset, if_neg (by omega), procCpusetOnce_eq hbuffer]
  simp only [bind_eq_bind, bind_some]
  rw [hpid]
  simp only [bind_some]
  by_cases hconf : conf = 0 ∨ conf = intMax
  · rw [if_pos hconf]
    exact ⟨_, rfl, nofun⟩
  · rw [if_neg hconf, if_pos (h.resolve_left fun h => hconf (.inr h))]
    exact ⟨_, rfl, nofun⟩

theorem woomp_of_lt (hle : allocSize numCpu ≤ allocSize conf)
    (hsize : allocSize numCpu ≤ b.size)
    (h : conf = intMax ∨ allocSize numCpu < allocSize conf) :
    ∃ r, woomp conf numCpu w s b = some r ∧ r.err ≠ none := by
  obtain ⟨err, hpid⟩ := procCpusetPid_eq w.status
    (b := procBuffer conf (filled conf w s)) hmax hle
  rw [woomp, if_neg (by omega), procCpusetOnce_eq hbuffer]
  simp only [bind_eq_bind, bind_some]
  rw [hpid]
  simp only [bind_some]
  by_cases hconf : conf = 0 ∨ conf = intMax
  · rw [if_pos hconf]
    exact ⟨_, rfl, nofun⟩
  · obtain ⟨b', hb'⟩ := exists_assignRange true (allocSize conf) 0 hsize
    rw [if_neg hconf, if_pos (h.resolve_left fun h => hconf (.inr h))]
    simp only [reduceCtorEq, if_false, if_true]
    rw [hb']
    exact ⟨_, rfl, nofun⟩

end Calls

/-- `geopm_sched_proc_cpuset` in all cases. -/
theorem procCpusetRight_iff (hpos : 0 < numCpu) (bit : ℕ → Bool) :
    ProcCpusetRight conf numCpu w s bit ↔ ProcCpusetHolds conf numCpu w s := by
  rw [ProcCpusetRight, ProcCpusetHolds]
  by_cases hfirst : numCpu = intMax ∨ NoBuffer w s
  · obtain ⟨r, hr, herr⟩ := procCpuset_of_noBuffer conf
      (b := ⟨allocSize numCpu, bit⟩) hfirst
    exact ⟨fun _ => or_assoc.mp (.inl hfirst), fun _ => ⟨r, hr, fun h => absurd h herr⟩⟩
  · obtain ⟨hmax, hbuffer⟩ := not_or.mp hfirst
    simp only [hmax, hbuffer, false_or]
    rcases lt_trichotomy (allocSize numCpu) (allocSize conf) with hsize | hsize | hsize
    · obtain ⟨r, hr, herr⟩ := procCpuset_of_lt (b := ⟨allocSize numCpu, bit⟩) hpos hmax hbuffer
        hsize.le (.inr hsize)
      exact ⟨fun _ => .inl hsize, fun _ => ⟨r, hr, fun h => absurd h herr⟩⟩
    · simp only [hsize, true_and, false_or, lt_irrefl]
      rw [← hsize]
      by_cases hconf : conf = intMax
      · obtain ⟨r, hr, herr⟩ := procCpuset_of_lt (b := ⟨allocSize numCpu, bit⟩) hpos hmax hbuffer
          hsize.le (.inl hconf)
        exact ⟨fun _ => .inl hconf, fun _ => ⟨r, hr, fun h => absurd h herr⟩⟩
      · obtain ⟨r, hr, herr, hbits⟩ := procCpuset_eq bit hpos hmax hconf hbuffer hsize
        simp only [hconf, false_or, hr, Option.some.injEq, exists_eq_left', herr, true_imp_iff]
        refine exists_congr fun m => and_congr_right fun hm => ?_
        rw [← got_iff_allowed hpos hmax hconf hbuffer hsize hm]
        exact forall₂_congr fun cpu hcpu => by rw [hbits cpu hcpu]
    · rw [procCpuset_of_gt hpos hmax hbuffer hsize]
      refine ⟨?_, ?_⟩
      · rintro ⟨r, hr, -⟩
        cases hr
      · rintro (h | ⟨h, -⟩) <;> omega

theorem Spare.lt {threads : List (Option ℕ)} {S : ℕ → Prop} (hS : ∀ cpu, S cpu → cpu < numCpu)
    {cpu : ℕ} (h : Spare numCpu threads S cpu) : cpu < numCpu :=
  h.elim (fun h => hS cpu h.1) And.right

/-- The caller gets the spare ones of the allowed CPUs. -/
theorem spare_iff_allowed (hpos : 0 < numCpu) (hmax : numCpu ≠ intMax) (hconf : conf ≠ intMax)
    (hbuffer : ¬ NoBuffer w s) (h : allocSize numCpu = allocSize conf)
    (hm : statusMask w = some m) (hthreads : ∀ cpu, some cpu ∈ w.threads → cpu < numCpu) :
    (∀ cpu < 8 * allocSize numCpu, Spare numCpu w.threads
        (fun cpu => cpu < 8 * allocSize numCpu ∧ got conf numCpu w s cpu = true) cpu ↔
      Spare numCpu w.threads (Allowed conf numCpu m) cpu) ↔
      (numRead numCpu ≤ m.length ∧ NoneBeyond numCpu m ∨
        m.length < numRead numCpu ∧ Clean conf numCpu w m s ∧
          ∀ cpu, Spare numCpu w.threads (Every conf numCpu) cpu ↔
            Spare numCpu w.threads (Allowed conf numCpu m) cpu) := by
  have hwords := le_allocSize numCpu
  have hnum := allocSize_numRead numCpu
  have hallowed : ∀ cpu, Allowed conf numCpu m cpu → cpu < numCpu := fun _ h => h.2.1
  -- a CPU beyond the number of CPUs is used by no thread
  have hbeyond : (∀ cpu < 8 * allocSize numCpu, Spare numCpu w.threads
        (fun cpu => cpu < 8 * allocSize numCpu ∧ got conf numCpu w s cpu = true) cpu ↔
      Spare numCpu w.threads (Allowed conf numCpu m) cpu) →
      ∀ cpu, numCpu ≤ cpu → cpu < 8 * allocSize numCpu → got conf numCpu w s cpu ≠ true := by
    intro hall cpu hge hsize hgot
    have hfree : some cpu ∉ w.threads := fun hmem => absurd (hthreads cpu hmem) hge.not_gt
    have hspare := (hall cpu hsize).mp (.inl ⟨⟨hsize, hgot⟩, hfree⟩)
    exact absurd (hspare.lt hallowed) hge.not_gt
  by_cases hle : numRead numCpu ≤ m.length
  · have hnot : ¬ m.length < numRead numCpu := hle.not_gt
    simp only [hle, hnot, true_and, false_and, or_false]
    constructor
    · intro hall cpu hge hword
      by_contra hbit
      refine hbeyond hall cpu hge (by omega) ?_
      exact (got_of_le conf s hpos hmax hm hle (by omega)).mpr ⟨by simpa using hbit, hword, by omega⟩
    · intro hnone
      have hgot := (got_iff_allowed hpos hmax hconf hbuffer h hm).mpr (.inl ⟨hle, hnone⟩)
      have hset : (fun cpu => cpu < 8 * allocSize numCpu ∧ got conf numCpu w s cpu = true) =
          Allowed conf numCpu m := by
        funext cpu
        refine propext ⟨fun ⟨hcpu, h⟩ => (hgot cpu hcpu).mp h, fun h => ?_⟩
        have hcpu : cpu < 8 * allocSize numCpu := (hallowed cpu h).trans_le hwords
        exact ⟨hcpu, (hgot cpu hcpu).mpr h⟩
      rw [hset]
      exact fun _ _ => Iff.rfl
  · have hlt : m.length < numRead numCpu := Nat.lt_of_not_le hle
    simp only [hle, hlt, true_and, false_and, false_or]
    rw [← clean_iff hpos hconf hbuffer h hm hlt]
    have hset : (∀ cpu, numCpu ≤ cpu → cpu < 8 * allocSize numCpu →
        filled conf w s cpu = false) →
        (fun cpu => cpu < 8 * allocSize numCpu ∧ got conf numCpu w s cpu = true) =
          Every conf numCpu := by
      intro hclean
      funext cpu
      refine propext ⟨?_, fun h => ?_⟩
      · rintro ⟨hcpu, hgot⟩
        obtain h | ⟨hge, hbit⟩ := (got_of_lt hpos hmax hm hlt cpu).mp hgot
        · exact h
        · rw [hclean cpu hge hcpu] at hbit
          cases hbit
      · exact ⟨h.1.trans_le hwords, (got_of_lt hpos hmax hm hlt cpu).mpr (.inl h)⟩
    constructor
    · intro hall
      have hclean : ∀ cpu, numCpu ≤ cpu → cpu < 8 * allocSize numCpu →
          filled conf w s cpu = false := by
        intro cpu hge hsize
        by_contra hbit
        refine hbeyond hall cpu hge hsize ?_
        exact (got_of_lt hpos hmax hm hlt cpu).mpr (.inr ⟨hge, by simpa using hbit⟩)
      refine ⟨hclean, fun cpu => ?_⟩
      rw [hset hclean] at hall
      by_cases hsize : cpu < 8 * allocSize numCpu
      · exact hall cpu hsize
      · refine ⟨fun h => ?_, fun h => ?_⟩
        · have hcpu : cpu < numCpu := h.lt fun _ h => h.1
          omega
        · have hcpu : cpu < numCpu := h.lt hallowed
          omega
    · rintro ⟨hclean, hall⟩
      rw [hset hclean]
      exact fun cpu _ => hall cpu

/-- `geopm_sched_woomp` in all cases. -/
theorem woompRight_iff (hpos : 0 < numCpu) (bit : ℕ → Bool) :
    WoompRight conf numCpu w s bit ↔ WoompHolds conf numCpu w s := by
  rw [WoompRight, WoompHolds]
  by_cases hfirst : numCpu = intMax ∨ NoBuffer w s
  · obtain ⟨r, hr, herr⟩ := woomp_of_noBuffer conf
      (b := ⟨allocSize numCpu, bit⟩) hfirst
    exact ⟨fun _ => or_assoc.mp (.inl hfirst), fun _ => ⟨r, hr, fun h => absurd h herr⟩⟩
  · obtain ⟨hmax, hbuffer⟩ := not_or.mp hfirst
    simp only [hmax, hbuffer, false_or]
    rcases lt_trichotomy (allocSize numCpu) (allocSize conf) with hsize | hsize | hsize
    · obtain ⟨r, hr, herr⟩ := woomp_of_lt (b := ⟨allocSize numCpu, bit⟩) hpos hmax hbuffer
        hsize.le le_rfl (.inr hsize)
      exact ⟨fun _ => .inl hsize, fun _ => ⟨r, hr, fun h => absurd h herr⟩⟩
    · simp only [hsize, true_and, false_or, lt_irrefl]
      rw [← hsize]
      by_cases hconf : conf = intMax
      · obtain ⟨r, hr, herr⟩ := woomp_of_lt (b := ⟨allocSize numCpu, bit⟩) hpos hmax hbuffer
          hsize.le le_rfl (.inl hconf)
        exact ⟨fun _ => .inl hconf, fun _ => ⟨r, hr, fun h => absurd h herr⟩⟩
      · obtain ⟨r, hr, herr, hbits⟩ := woomp_eq bit hpos hmax hconf hbuffer hsize
        simp only [hconf, false_or, hr, Option.some.injEq, exists_eq_left']
        rw [herr]
        by_cases hfails : ThreadFails numCpu w
        · simp [hfails]
        · simp only [hfails, not_false_eq_true, true_imp_iff, false_or]
          refine exists_congr fun m => and_congr_right fun hm => ?_
          rw [← spare_iff_allowed hpos hmax hconf hbuffer hsize hm
            (not_threadFails_iff.mp hfails).2]
          exact forall₂_congr fun cpu hcpu => by rw [hbits hfails cpu hcpu]
    · rw [woomp_of_gt hpos hmax hbuffer hsize]
      refine ⟨?_, ?_⟩
      · rintro ⟨r, hr, -⟩
        cases hr
      · rintro (h | ⟨h, -⟩) <;> omega

/-- **Exactly when affinity masks are read exactly and in bounds.**  The array gets the mask, unless
a text without one can be read; the buffers are not exceeded and the set of the caller is right when
its size is that of the configured CPUs and the mask has no CPUs beyond the requested ones in its
words, and otherwise only by an error or because all CPUs happen to be right. -/
theorem cpuset_right_iff (hpos : 0 < numCpu) (text : List Char) (cpuset : List ℕ)
    (hcpuset : cpuset.length = numRead numCpu) (conf : ℕ) (w : World) (s : ProcCpuset)
    (bit : ℕ → Bool) :
    (HelperRight numCpu cpuset text ↔
      numCpu = intMax ∨ (mask text).isSome = true ∨ ¬ Scans numCpu text) ∧
    (ProcCpusetRight conf numCpu w s bit ↔ ProcCpusetHolds conf numCpu w s) ∧
    (WoompRight conf numCpu w s bit ↔ WoompHolds conf numCpu w s) :=
  ⟨helperRight_iff hpos hcpuset, procCpusetRight_iff hpos bit, woompRight_iff hpos bit⟩

/-- A process that may run on eight CPUs of the second word and all of the first one, with an OpenMP
thread on one of them. -/
def fortyCpus : World where
  status := .ok "Name:\tcat\nCpus_allowed:\tff,ffffffff\nCpus_allowed_list:\t0-39\n".toList
  canAlloc := true
  garbage := fun _ => true
  threads := [some 1]
  errno := .logic

theorem statusMask_fortyCpus : statusMask fortyCpus = some [0xffffffff, 0xff] := by
  decide +kernel

theorem cpuset_right_fortyCpus :
    HelperRight 40 [7, 7] "Cpus_allowed:\tff,ffffffff\n".toList ∧
      ProcCpusetRight 40 40 fortyCpus .unset (fun _ => true) ∧
      WoompRight 40 40 fortyCpus .unset (fun _ => true) := by
  obtain ⟨hhelper, hproc, hwoomp⟩ := cpuset_right_iff (show 0 < 40 by decide)
    "Cpus_allowed:\tff,ffffffff\n".toList [7, 7] rfl 40 fortyCpus .unset (fun _ => true)
  have hnone : NoneBeyond 40 [0xffffffff, 0xff] := by
    intro cpu hge hlt
    change cpu < 64 at hlt
    interval_cases cpu <;> decide
  refine ⟨hhelper.mpr (.inr (.inl (by decide +kernel))), hproc.mpr ?_, hwoomp.mpr ?_⟩
  · exact .inr (.inr (.inr ⟨rfl, .inr ⟨_, statusMask_fortyCpus, .inl ⟨by decide, hnone⟩⟩⟩))
  · exact .inr (.inr (.inr ⟨rfl, .inr (.inr
      ⟨_, statusMask_fortyCpus, .inl ⟨by decide, hnone⟩⟩)⟩))

/-- A process that may run on all of 64 CPUs. -/
def sixtyFourCpus : World where
  status := .ok "Name:\tcat\nCpus_allowed:\tffffffff,ffffffff\n".toList
  canAlloc := true
  garbage := fun _ => false
  threads := [some 1]
  errno := .logic

/-- A request for more CPUs than the words of the configured ones overflows the buffer of the
process, and the set for a request of fewer ones has CPUs beyond them. -/
theorem not_cpuset_right :
    ¬ ProcCpusetRight 64 65 sixtyFourCpus .unset (fun _ => false) ∧
      ¬ WoompRight 64 65 sixtyFourCpus .unset (fun _ => false) ∧
      ¬ ProcCpusetRight 64 40 sixtyFourCpus .unset (fun _ => false) := by
  have hbuffer : ¬ NoBuffer sixtyFourCpus .unset := by
    simp [NoBuffer, sixtyFourCpus]
  have hmask : statusMask sixtyFourCpus = some [0xffffffff, 0xffffffff] := by decide +kernel
  refine ⟨?_, ?_, ?_⟩
  · rintro ⟨r, hr, -⟩
    rw [procCpuset_of_gt (by decide) (by decide) hbuffer (by decide)] at hr
    cases hr
  · rintro ⟨r, hr, -⟩
    rw [woomp_of_gt (by decide) (by decide) hbuffer (by decide)] at hr
    cases hr
  · rw [procCpusetRight_iff (by decide)]
    rintro (h | h | h | ⟨-, h | ⟨m, hm, h⟩⟩)
    · exact absurd h (by decide)
    · exact hbuffer h
    · exact absurd h (by decide)
    · exact absurd h (by decide)
    · obtain rfl := Option.some.inj (hmask.symm.trans hm)
      obtain ⟨-, hnone⟩ | ⟨hlt, -⟩ := h
      · exact absurd (hnone 40 le_rfl (by decide)) (by decide)
      · exact absurd hlt (by decide)

end Geopm.Sched
