import Geopm.Exception
import Geopm.Lib.LeastSquares
import Geopm.Lib.Lts
import Geopm.Lib.Prog

/-!
# The clocks of the activity of a GPU

A `LevelZeroDevicePool` turns the active time of an engine and its timestamp, which are counters of
64 bits, into numbers that do not wrap. A timestamp that has not moved is replaced by the next
number after the last one returned.

* `convertActiveTimestamp`, `convertActiveTime` : the conversions, with what they remember;
* `activeTimeTimestamp`, `activeTime` : the methods, which remember for each domain and each chip;
* `Session` : a pool with the unwrapped clocks that its calls have seen;
* `StepMeets` : the timestamp moves by more than has been made up since it moved last;
* `along_clockRight_iff` : the runs in which the clocks are right.
-/

namespace Geopm.LevelZeroDevicePool

open LeastSquares Lts
open Function (update update_self update_of_ne)

/-- `GEOPM_DOMAIN_GPU`. -/
def gpu : ℤ := 8

/-- `GEOPM_DOMAIN_GPU_CHIP`. -/
def gpuChip : ℤ := 10

/-- What `convert_active_timestamp` remembers: the value it has used last, the number of wraps, and
the last value of the device. -/
structure Timestamp where
  last : ℕ := 0
  rollover : ℕ := 0
  original : ℕ := 0

/-- What `convert_active_time` remembers. -/
structure ActiveTime where
  last : ℕ := 0
  rollover : ℕ := 0

def convertActiveTimestamp (value : ℕ) (m : Timestamp) : ℕ × Timestamp :=
  let rollover := if m.original > value then (m.rollover + 1) % 2 ^ 64 else m.rollover
  if value = m.original then
    -- the timestamp must increase even when the engine has been idle
    let value := (m.last + 1) % 2 ^ 64
    (rollover * 2 ^ 64 + value, ⟨value, rollover, m.original⟩)
  else (rollover * 2 ^ 64 + value, ⟨value, rollover, value⟩)

def convertActiveTime (value : ℕ) (m : ActiveTime) : ℕ × ActiveTime :=
  let rollover := if m.last > value then (m.rollover + 1) % 2 ^ 64 else m.rollover
  (rollover * 2 ^ 64 + value, ⟨value, rollover⟩)

/-- What the pool reads from `LevelZero` before it asks for a clock. -/
structure Device where
  numGpu : ℕ
  numGpuChip : ℕ
  engineDomainCount : ℕ → ℤ → ℕ

/-- What is remembered for each domain and each chip; `try_emplace` starts with zeros. -/
structure Pool where
  timestamps : ℤ × ℕ → Timestamp := fun _ => {}
  times : ℤ × ℕ → ActiveTime := fun _ => {}

section Methods

variable (dev : Device)

def checkIdxRange (domain : ℤ) (domainIdx numGpu : ℕ) : Except Exception Unit :=
  if domainIdx ≥ numGpu then
    throw ⟨"LevelZeroDevicePool::check_idx_range: domain % idx % is out of range.",
      [domain, domainIdx], .invalid⟩
  else pure ()

def subdeviceDeviceConversion (subIdx : ℕ) : Except Exception (ℕ × ℕ) := do
  checkIdxRange gpuChip subIdx dev.numGpuChip
  if dev.numGpuChip % dev.numGpu ≠ 0 then
    throw ⟨"LevelZeroDevicePool::subdevice_device_conversion: GEOPM Requires the number of " ++
      "subdevices to be evenly divisible by the number of devices. ", [], .invalid⟩
  let numSubdevicePerDevice := dev.numGpuChip / dev.numGpu
  let deviceIdx := subIdx / numSubdevicePerDevice
  checkIdxRange gpu deviceIdx dev.numGpu
  pure (deviceIdx, subIdx % numSubdevicePerDevice)

/-- The checks of a method, and the device and the subdevice of the chip. -/
def engine (func : String) (domain : ℤ) (domainIdx : ℕ) (l0Domain : ℤ) :
    Except Exception (ℕ × ℕ) := do
  if domain ≠ gpuChip then
    throw ⟨"LevelZeroDevicePool::" ++ func ++
      ": domain % is not supported for the engine domain.", [domain], .invalid⟩
  let pair ← subdeviceDeviceConversion dev domainIdx
  if dev.engineDomainCount pair.1 l0Domain = 0 then
    throw ⟨"LevelZeroDevicePool::" ++ func ++
      ": Not supported on this hardware for the specified LevelZero domain", [], .invalid⟩
  pure pair

/-- The part that both methods have in common: the clock that `driver` gives is converted with what
has been remembered of the engine. -/
def convertClock {M : Type} (func : String) (memory : Pool → ℤ × ℕ → M)
    (remember : (ℤ × ℕ → M) → Pool → Pool) (convert : ℕ → M → ℕ × M) (domain : ℤ) (domainIdx : ℕ)
    (l0Domain : ℤ) (driver : ℕ × ℕ → Except Exception ℕ) : EStateM Exception Pool ℕ := do
  let pair ← Prog.ret (engine dev func domain domainIdx l0Domain)
  let value ← Prog.ret (driver pair)
  let memories := memory (← get)
  let converted := convert value (memories (l0Domain, domainIdx))
  modify (remember (update memories (l0Domain, domainIdx) converted.2))
  pure converted.1

def activeTimeTimestamp : ℤ → ℕ → ℤ → (ℕ × ℕ → Except Exception ℕ) → EStateM Exception Pool ℕ :=
  convertClock dev "active_time_timestamp" Pool.timestamps
    (fun timestamps pool => { pool with timestamps }) convertActiveTimestamp

def activeTime : ℤ → ℕ → ℤ → (ℕ × ℕ → Except Exception ℕ) → EStateM Exception Pool ℕ :=
  convertClock dev "active_time" Pool.times (fun times pool => { pool with times })
    convertActiveTime

end Methods

/-! ### Runs -/

inductive Method
  | timestamp
  | time

/-- The name of a method in its exceptions. -/
def Method.func : Method → String
  | .timestamp => "active_time_timestamp"
  | .time => "active_time"

/-- A call, and the clock of the chip at the time of the call, if the device has an answer. -/
structure Call where
  method : Method
  domain : ℤ
  domainIdx : ℕ
  l0Domain : ℤ
  clock : Except Exception ℕ

def Call.key (call : Call) : ℤ × ℕ := (call.l0Domain, call.domainIdx)

/-- The timestamps of an engine: the clock that has been seen last, how often it has been seen
again, and the timestamp that has been returned last. -/
structure History where
  seen : ℕ := 0
  repeats : ℕ := 0
  returned : Option ℕ := none

def History.record (h : History) (clock result : ℕ) : History where
  seen := clock
  repeats := if clock = h.seen then h.repeats + 1 else 0
  returned := some result

/-- A pool, the timestamps of the engines, and their active times that have been seen last. -/
structure Session where
  pool : Pool := {}
  timestamps : ℤ × ℕ → History := fun _ => {}
  times : ℤ × ℕ → ℕ := fun _ => 0

section Run

variable (dev : Device)

/-- The device shows its clocks modulo the range of the counters. -/
def perform (call : Call) : EStateM Exception Pool ℕ :=
  let driver := fun _ => call.clock.map (· % 2 ^ 64)
  match call.method with
  | .timestamp => activeTimeTimestamp dev call.domain call.domainIdx call.l0Domain driver
  | .time => activeTime dev call.domain call.domainIdx call.l0Domain driver

/-- The clock that a call gets to see. -/
def sees (call : Call) : Option ℕ :=
  match engine dev call.method.func call.domain call.domainIdx call.l0Domain with
  | .ok _ => call.clock.toOption
  | .error _ => none

/-- The session after a call. -/
def Session.next (x : Session) (call : Call) : Session :=
  match perform dev call x.pool, sees dev call with
  | .ok result pool, some clock =>
    match call.method with
    | .timestamp =>
      { x with
        pool := pool
        timestamps := update x.timestamps call.key
          ((x.timestamps call.key).record clock result) }
    | .time => { x with pool := pool, times := update x.times call.key clock }
  | .ok _ pool, none => { x with pool := pool }
  | .error _ pool, _ => { x with pool := pool }

/-- The clocks do not decrease, and wrap less than once between two observations. -/
def Observed (x : Session) (call : Call) : Prop :=
  ∀ clock, sees dev call = some clock →
    let seen := match call.method with
      | .timestamp => (x.timestamps call.key).seen
      | .time => x.times call.key
    seen ≤ clock ∧ clock < seen + 2 ^ 64

/-- A timestamp is larger than the one before, and is the clock if this has moved; an active time is
the clock. -/
def StepRight (x : Session) (call : Call) : Prop :=
  ∀ clock result pool, sees dev call = some clock → perform dev call x.pool = .ok result pool →
    match call.method with
    | .timestamp => ∀ last, (x.timestamps call.key).returned = some last →
      last < result ∧ (clock ≠ (x.timestamps call.key).seen → result = clock)
    | .time => result = clock

/-- A clock that has moved is beyond what has been made up since it moved last, and what is made up
does not wrap. The number of wraps does not wrap either. -/
def StepMeets (x : Session) (call : Call) : Prop :=
  ∀ clock, sees dev call = some clock →
    match call.method with
    | .timestamp =>
      let h := x.timestamps call.key
      h.returned.isSome = true →
        if clock = h.seen then h.seen % 2 ^ 64 + h.repeats + 1 < 2 ^ 64
        else h.seen + h.repeats < clock ∧ clock < 2 ^ 128
    | .time => clock < 2 ^ 128

/-- The timestamp of an engine that a call returns. -/
def yields (key : ℤ × ℕ) (x : Session) (call : Call) : Option ℕ :=
  match perform dev call x.pool, call.method with
  | .ok result _, .timestamp => if call.key = key then some result else none
  | _, _ => none

/-- The timestamps of an engine that the calls return. -/
def returned (key : ℤ × ℕ) : Session → List Call → List ℕ
  | _, [] => []
  | x, call :: calls => (yields dev key x call).toList ++ returned key (x.next dev call) calls

end Run

/-! ### One call -/

/-- The memory of a timestamp agrees with its history. -/
structure Timestamp.Follows (m : Timestamp) (h : History) : Prop where
  original : m.original = h.seen % 2 ^ 64
  rollover : m.rollover = h.seen / 2 ^ 64
  bound : h.seen < 2 ^ 128
  last : m.last = h.seen % 2 ^ 64 + h.repeats
  lastBound : m.last < 2 ^ 64
  returned : ∀ r, h.returned = some r → r = h.seen + h.repeats
  new : h.returned = none → h.seen = 0 ∧ h.repeats = 0

/-- The memory of an active time agrees with the clock that has been seen last. -/
structure ActiveTime.Follows (m : ActiveTime) (seen : ℕ) : Prop where
  last : m.last = seen % 2 ^ 64
  rollover : m.rollover = seen / 2 ^ 64
  bound : seen < 2 ^ 128

section Convert

variable {m : Timestamp} {h : History} {a : ActiveTime} {seen clock : ℕ}

/-- The number of wraps is counted, modulo the range of the counter. -/
theorem rollover_eq (hbound : seen < 2 ^ 128) (hle : seen ≤ clock) (hlt : clock < seen + 2 ^ 64) :
    (if seen % 2 ^ 64 > clock % 2 ^ 64 then (seen / 2 ^ 64 + 1) % 2 ^ 64 else seen / 2 ^ 64) =
      clock / 2 ^ 64 % 2 ^ 64 := by
  split_ifs <;> omega

theorem convertActiveTime_spec (ha : a.Follows seen) (hle : seen ≤ clock)
    (hlt : clock < seen + 2 ^ 64) :
    ((convertActiveTime (clock % 2 ^ 64) a).1 = clock ↔ clock < 2 ^ 128) ∧
      (clock < 2 ^ 128 → (convertActiveTime (clock % 2 ^ 64) a).2.Follows clock) := by
  have hrollover := rollover_eq ha.bound hle hlt
  rw [convertActiveTime]
  dsimp only
  rw [ha.last, ha.rollover, hrollover]
  refine ⟨by omega, fun hclock => ⟨rfl, ?_, hclock⟩⟩
  dsimp only
  omega

theorem convertActiveTimestamp_again (hm : m.Follows h) :
    convertActiveTimestamp (h.seen % 2 ^ 64) m =
      (h.seen / 2 ^ 64 * 2 ^ 64 + (h.seen % 2 ^ 64 + h.repeats + 1) % 2 ^ 64,
        ⟨(h.seen % 2 ^ 64 + h.repeats + 1) % 2 ^ 64, h.seen / 2 ^ 64, h.seen % 2 ^ 64⟩) := by
  rw [convertActiveTimestamp, hm.original, hm.rollover, hm.last]
  simp

theorem convertActiveTimestamp_moved (hm : m.Follows h) (hne : clock ≠ h.seen)
    (hle : h.seen ≤ clock) (hlt : clock < h.seen + 2 ^ 64) :
    convertActiveTimestamp (clock % 2 ^ 64) m =
      (clock / 2 ^ 64 % 2 ^ 64 * 2 ^ 64 + clock % 2 ^ 64,
        ⟨clock % 2 ^ 64, clock / 2 ^ 64 % 2 ^ 64, clock % 2 ^ 64⟩) := by
  have hmoved : clock % 2 ^ 64 ≠ h.seen % 2 ^ 64 := by omega
  have hrollover := rollover_eq hm.bound hle hlt
  rw [convertActiveTimestamp]
  dsimp only
  rw [hm.original, hm.rollover, hrollover, if_neg hmoved]

/-- **A conversion** is right when the clock meets the condition, and then the memory agrees with
the history again. -/
theorem convertActiveTimestamp_spec (hm : m.Follows h) (hle : h.seen ≤ clock)
    (hlt : clock < h.seen + 2 ^ 64) :
    let converted := convertActiveTimestamp (clock % 2 ^ 64) m
    let meets := h.returned.isSome = true →
      if clock = h.seen then h.seen % 2 ^ 64 + h.repeats + 1 < 2 ^ 64
      else h.seen + h.repeats < clock ∧ clock < 2 ^ 128
    ((∀ last, h.returned = some last →
      last < converted.1 ∧ (clock ≠ h.seen → converted.1 = clock)) ↔ meets) ∧
    (meets → converted.2.Follows (h.record clock converted.1)) := by
  have hlast := hm.last ▸ hm.lastBound
  have hbound := hm.bound
  dsimp only
  by_cases hsame : clock = h.seen
  · subst hsame
    rw [convertActiveTimestamp_again hm, if_pos rfl]
    constructor
    · cases hreturned : h.returned with
      | none => simp
      | some r =>
        have hr := hm.returned r hreturned
        constructor
        · intro hright _
          have hincreases := (hright r rfl).1
          dsimp only at hincreases
          omega
        · rintro hmeets last hlast'
          obtain rfl := Option.some.inj hlast'
          have hroom := hmeets rfl
          refine ⟨?_, fun hne => absurd rfl hne⟩
          dsimp only
          omega
    · intro hmeets
      have hroom : h.seen % 2 ^ 64 + h.repeats + 1 < 2 ^ 64 := by
        cases hreturned : h.returned with
        | none =>
          obtain ⟨hseen, hrepeats⟩ := hm.new hreturned
          rw [hseen, hrepeats]
          decide
        | some r => exact hmeets (by rw [hreturned]; rfl)
      rw [Nat.mod_eq_of_lt hroom]
      refine ⟨rfl, rfl, hbound, ?_, hroom, ?_, nofun⟩
      · simp [History.record, Nat.add_assoc]
      · rintro _ hr
        obtain rfl := Option.some.inj hr
        simp only [History.record, if_true]
        omega
  · rw [convertActiveTimestamp_moved hm hsame hle hlt, if_neg hsame]
    constructor
    · cases hreturned : h.returned with
      | none => simp
      | some r =>
        have hr := hm.returned r hreturned
        constructor
        · intro hright _
          obtain ⟨hincreases, hclock⟩ := hright r rfl
          have heq := hclock hsame
          dsimp only at hincreases heq
          omega
        · rintro hmeets last hlast'
          obtain rfl := Option.some.inj hlast'
          obtain ⟨hbeyond, hclock⟩ := hmeets rfl
          dsimp only
          omega
    · intro hmeets
      have hclock : clock < 2 ^ 128 := by
        cases hreturned : h.returned with
        | none =>
          obtain ⟨hseen, -⟩ := hm.new hreturned
          omega
        | some r => exact (hmeets (by rw [hreturned]; rfl)).2
      have hwraps : clock / 2 ^ 64 % 2 ^ 64 = clock / 2 ^ 64 := Nat.mod_eq_of_lt (by omega)
      rw [hwraps]
      refine ⟨rfl, rfl, hclock, ?_, Nat.mod_lt _ (by decide), ?_, nofun⟩
      · simp [History.record, hsame]
      · rintro _ hr
        obtain rfl := Option.some.inj hr
        simp only [History.record, if_neg hsame]
        omega

end Convert

section Step

variable {dev : Device} {x : Session} {call : Call} {clock : ℕ} {pool : Pool}

section Convert

variable {M : Type} {func : String} {memory : Pool → ℤ × ℕ → M}
  {remember : (ℤ × ℕ → M) → Pool → Pool} {convert : ℕ → M → ℕ × M} {domain l0Domain : ℤ}
  {domainIdx : ℕ} {answer : Except Exception ℕ}

theorem convertClock_of_none (pool : Pool)
    (h : (match engine dev func domain domainIdx l0Domain with
      | .ok _ => answer.toOption
      | .error _ => none) = none) :
    ∃ e, convertClock dev func memory remember convert domain domainIdx l0Domain
      (fun _ => answer.map (· % 2 ^ 64)) pool = .error e pool := by
  rw [convertClock]
  cases hengine : engine dev func domain domainIdx l0Domain with
  | error e => exact ⟨e, rfl⟩
  | ok pair =>
    rw [hengine] at h
    cases answer with
    | error e => exact ⟨e, rfl⟩
    | ok clock => cases h

theorem convertClock_of_some (pool : Pool)
    (h : (match engine dev func domain domainIdx l0Domain with
      | .ok _ => answer.toOption
      | .error _ => none) = some clock) :
    convertClock dev func memory remember convert domain domainIdx l0Domain
        (fun _ => answer.map (· % 2 ^ 64)) pool =
      let converted := convert (clock % 2 ^ 64) (memory pool (l0Domain, domainIdx))
      .ok converted.1
        (remember (update (memory pool) (l0Domain, domainIdx) converted.2) pool) := by
  rw [convertClock]
  cases hengine : engine dev func domain domainIdx l0Domain with
  | error e =>
    rw [hengine] at h
    cases h
  | ok pair =>
    rw [hengine] at h
    cases answer with
    | error e => cases h
    | ok k =>
      cases h
      rfl

end Convert

theorem perform_of_none (h : sees dev call = none) (pool : Pool) :
    ∃ e, perform dev call pool = .error e pool := by
  obtain ⟨method, domain, domainIdx, l0Domain, clock⟩ := call
  cases method with
  | timestamp =>
    rw [perform]
    dsimp only
    rw [activeTimeTimestamp]
    exact convertClock_of_none pool h
  | time =>
    rw [perform]
    dsimp only
    rw [activeTime]
    exact convertClock_of_none pool h

theorem perform_of_some (h : sees dev call = some clock) (pool : Pool) :
    perform dev call pool =
      match call.method with
      | .timestamp =>
        let converted := convertActiveTimestamp (clock % 2 ^ 64) (pool.timestamps call.key)
        .ok converted.1
          { pool with timestamps := update pool.timestamps call.key converted.2 }
      | .time =>
        let converted := convertActiveTime (clock % 2 ^ 64) (pool.times call.key)
        .ok converted.1 { pool with times := update pool.times call.key converted.2 } := by
  obtain ⟨method, domain, domainIdx, l0Domain, answer⟩ := call
  cases method with
  | timestamp =>
    rw [perform]
    dsimp only
    rw [activeTimeTimestamp]
    exact convertClock_of_some pool h
  | time =>
    rw [perform]
    dsimp only
    rw [activeTime]
    exact convertClock_of_some pool h

/-- All memories agree with what has been seen. -/
structure Session.Inv (x : Session) : Prop where
  timestamps : ∀ key, (x.pool.timestamps key).Follows (x.timestamps key)
  times : ∀ key, (x.pool.times key).Follows (x.times key)

theorem inv_start : ({} : Session).Inv where
  timestamps _ := ⟨rfl, (Nat.zero_div _).symm, Nat.two_pow_pos _, rfl, Nat.two_pow_pos _, nofun,
    fun _ => ⟨rfl, rfl⟩⟩
  times _ := ⟨rfl, (Nat.zero_div _).symm, Nat.two_pow_pos _⟩

/-- **One call** is right when it meets the condition, and then the memories still agree. -/
theorem step_spec (h : x.Inv) (hobserved : Observed dev x call) :
    (StepRight dev x call ↔ StepMeets dev x call) ∧
      (StepMeets dev x call → (x.next dev call).Inv) := by
  rw [StepRight, StepMeets, Session.next]
  cases hsees : sees dev call with
  | none =>
    obtain ⟨e, he⟩ := perform_of_none hsees x.pool
    rw [he]
    exact ⟨iff_of_true nofun nofun, fun _ => h⟩
  | some clock =>
    have hperform := perform_of_some hsees x.pool
    obtain ⟨hle, hlt⟩ := hobserved clock hsees
    obtain ⟨htimestamps, htimes⟩ := h
    cases hmethod : call.method with
    | timestamp =>
      rw [hmethod] at hperform hle hlt
      dsimp only at hperform hle hlt ⊢
      obtain ⟨hright, hfollows⟩ := convertActiveTimestamp_spec (htimestamps call.key) hle hlt
      rw [hperform]
      refine ⟨?_, fun hmeets => ⟨fun key => ?_, htimes⟩⟩
      · simpa using hright
      · dsimp only
        by_cases hkey : key = call.key
        · subst hkey
          rw [update_self, update_self]
          exact hfollows (hmeets clock rfl)
        · rw [update_of_ne hkey, update_of_ne hkey]
          exact htimestamps key
    | time =>
      rw [hmethod] at hperform hle hlt
      dsimp only at hperform hle hlt ⊢
      obtain ⟨hright, hfollows⟩ := convertActiveTime_spec (htimes call.key) hle hlt
      rw [hperform]
      refine ⟨?_, fun hmeets => ⟨htimestamps, fun key => ?_⟩⟩
      · simpa using hright
      · dsimp only
        by_cases hkey : key = call.key
        · subst hkey
          rw [update_self, update_self]
          exact hfollows (hmeets clock rfl)
        · rw [update_of_ne hkey, update_of_ne hkey]
          exact htimes key

end Step

/-! ### Runs of calls -/

section Runs

variable {dev : Device} {x : Session} {call : Call}

theorem sees_of_perform {result : ℕ} {pool : Pool}
    (h : perform dev call x.pool = .ok result pool) : ∃ clock, sees dev call = some clock := by
  cases hsees : sees dev call with
  | none =>
    obtain ⟨e, he⟩ := perform_of_none hsees x.pool
    cases he.symm.trans h
  | some clock => exact ⟨clock, rfl⟩

theorem returned_next (key : ℤ × ℕ) : ((x.next dev call).timestamps key).returned =
    (yields dev key x call).or (x.timestamps key).returned := by
  rw [Session.next, yields]
  cases hperform : perform dev call x.pool with
  | error e pool => rfl
  | ok result pool =>
    obtain ⟨clock, hsees⟩ := sees_of_perform hperform
    rw [hsees]
    cases call.method with
    | time => rfl
    | timestamp =>
      dsimp only
      by_cases hkey : call.key = key
      · subst hkey
        rw [update_self, if_pos rfl]
        rfl
      · rw [update_of_ne (Ne.symm hkey), if_neg hkey]
        rfl

theorem StepRight.lt_of_yields (h : StepRight dev x call) {key : ℤ × ℕ} {last result : ℕ}
    (hlast : (x.timestamps key).returned = some last)
    (hresult : yields dev key x call = some result) : last < result := by
  rw [yields] at hresult
  cases hperform : perform dev call x.pool with
  | error e pool =>
    rw [hperform] at hresult
    cases hresult
  | ok v pool =>
    obtain ⟨clock, hsees⟩ := sees_of_perform hperform
    have hright := h clock v pool hsees hperform
    rw [hperform] at hresult
    cases hmethod : call.method with
    | time =>
      rw [hmethod] at hresult
      cases hresult
    | timestamp =>
      rw [hmethod] at hresult hright
      dsimp only at hresult hright
      split_ifs at hresult with hkey
      obtain rfl := Option.some.inj hresult
      exact (hright last (hkey ▸ hlast)).1

/-- **The timestamps of an engine increase** along a run whose calls are right. -/
theorem isChain_returned (key : ℤ × ℕ) {calls : List Call}
    (h : Along (StepRight dev) (Session.next dev) x calls) :
    ((x.timestamps key).returned.toList ++ returned dev key x calls).IsChain (· < ·) := by
  induction calls generalizing x with
  | nil =>
    rw [returned, List.append_nil]
    cases (x.timestamps key).returned <;> simp
  | cons call calls ih =>
    obtain ⟨hright, hrest⟩ := h
    have hchain := ih hrest
    rw [returned_next] at hchain
    rw [returned]
    cases hyields : yields dev key x call with
    | none =>
      rw [hyields] at hchain
      exact hchain
    | some result =>
      rw [hyields] at hchain
      cases hlast : (x.timestamps key).returned with
      | none => exact hchain
      | some last =>
        exact List.isChain_cons_cons.mpr ⟨hright.lt_of_yields hlast hyields, hchain⟩

theorem sxx_ne_zero_of_isChain {times : List ℕ} (h : times.IsChain (· < ·))
    {window : List (ℚ × ℚ)} (hwindow : (window.map Prod.fst).Sublist (times.map (↑)))
    (htwo : 2 ≤ window.length) : sxx window ≠ 0 := by
  have htimes : (times.map ((↑) : ℕ → ℚ)).Pairwise (· < ·) :=
    (List.isChain_iff_pairwise.mp h).map _ fun _ _ hlt => Nat.cast_lt.mpr hlt
  match window, htwo with
  | p :: q :: window, _ =>
    have hlt : p.1 < q.1 := by
      have hpairs := htimes.sublist hwindow
      rw [List.map_cons, List.map_cons, List.pairwise_cons] at hpairs
      exact hpairs.1 q.1 List.mem_cons_self
    intro hzero
    rw [sxx_eq_zero_iff (List.cons_ne_nil _ _)] at hzero
    exact hlt.ne (hzero p List.mem_cons_self q (List.mem_cons_of_mem _ List.mem_cons_self))

/-- **The clocks are right** in the runs whose calls all meet the condition, and in no others. Then
the timestamps of each engine increase, and no derivative over them divides by zero. -/
theorem along_clockRight_iff (dev : Device) (calls : List Call)
    (h : Along (Observed dev) (Session.next dev) {} calls) :
    (Along (StepRight dev) (Session.next dev) {} calls ↔
      Along (StepMeets dev) (Session.next dev) {} calls) ∧
    (Along (StepMeets dev) (Session.next dev) {} calls → ∀ key,
      (returned dev key {} calls).IsChain (· < ·) ∧
      ∀ window : List (ℚ × ℚ), (window.map Prod.fst).Sublist ((returned dev key {} calls).map (↑)) →
        2 ≤ window.length → sxx window ≠ 0) := by
  have hiff : Along (StepRight dev) (Session.next dev) {} calls ↔
      Along (StepMeets dev) (Session.next dev) {} calls :=
    along_iff_along (I := Session.Inv) (fun _ _ hinv hobserved => (step_spec hinv hobserved).1)
      (fun _ _ hinv hobserved => (step_spec hinv hobserved).2) inv_start h
  refine ⟨hiff, fun hmeets key => ?_⟩
  have hchain := isChain_returned key (hiff.mpr hmeets)
  exact ⟨hchain, fun window hwindow htwo => sxx_ne_zero_of_isChain hchain hwindow htwo⟩

end Runs

/-- A GPU that is one chip. -/
def oneChip : Device := ⟨1, 1, fun _ _ => 1⟩

/-- A call of `active_time_timestamp`. -/
def timestampAt (clock : ℕ) : Call := ⟨.timestamp, gpuChip, 0, 0, .ok clock⟩

theorem sees_timestampAt (clock : ℕ) : sees oneChip (timestampAt clock) = some clock := by
  simp [sees, timestampAt, engine, subdeviceDeviceConversion, checkIdxRange, oneChip]
  rfl

/-- An engine that is idle for one call, and has moved on by more at the next one. -/
theorem along_clockRight_idle :
    Along (StepRight oneChip) (Session.next oneChip) {}
      [timestampAt 100, timestampAt 100, timestampAt 200] := by
  refine (along_clockRight_iff oneChip [timestampAt 100, timestampAt 100, timestampAt 200]
    ⟨?_, ?_, ?_, trivial⟩).1.mpr ⟨?_, ?_, ?_, trivial⟩ <;>
    intro clock hclock <;> rw [sees_timestampAt] at hclock <;>
    obtain rfl := Option.some.inj hclock <;> dsimp only [timestampAt] <;> decide +kernel

/-- An engine that is idle for two calls makes up two timestamps, and then moves by one. -/
theorem not_along_clockRight :
    ¬ ∀ (dev : Device) (calls : List Call), Along (Observed dev) (Session.next dev) {} calls →
      Along (StepRight dev) (Session.next dev) {} calls := by
  intro h
  obtain ⟨-, -, -, hlast, -⟩ := h oneChip
    [timestampAt 10, timestampAt 10, timestampAt 10, timestampAt 11] <| by
      refine ⟨?_, ?_, ?_, ?_, trivial⟩ <;> intro clock hclock <;>
        rw [sees_timestampAt] at hclock <;> obtain rfl := Option.some.inj hclock <;>
        dsimp only [timestampAt] <;> decide +kernel
  have hright := hlast 11 11 _ (sees_timestampAt 11) rfl 12 (by decide +kernel)
  exact absurd hright.1 (by decide)

end Geopm.LevelZeroDevicePool
