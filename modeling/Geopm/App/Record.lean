import Geopm.Exception
import Geopm.Lib.Prog

/-!
# Application records and their validation

* `Record`, `ShortRegion` : what an application process tells the controller;
* `ValidateRecord.check` : the check of one record against the ones before it;
* `ValidateRecord.step` : the automaton of the check; `check_of_step` and `check_of_not_step`
  relate the two;
* `ValidateRecord.Accepts` : no record of a stream is rejected.

Times are counted in nanoseconds.
-/

namespace Geopm

open Prog

/-- `GEOPM_REGION_HASH_INVALID`. -/
def regionHashInvalid : ℕ := 0x0

/-- `GEOPM_REGION_HASH_UNMARKED`. -/
def regionHashUnmarked : ℕ := 0x725e8066

/-- `UINT32_MAX`. -/
def uint32Max : ℕ := 0xffffffff

/-- `event_e`. -/
inductive Event where
  /-- The signal is the hash of the entered region. -/
  | regionEntry
  /-- The signal is the hash of the exited region. -/
  | regionExit
  /-- The signal is the number of epochs of the process. -/
  | epochCount
  /-- The signal is the index of the short region in the table of the same dump. -/
  | shortRegion
  /-- The signal is a CPU of the process. -/
  | affinity
  /-- The signal is the hash of the profile name. -/
  | startProfile
  /-- The signal is the hash of the profile name. -/
  | stopProfile
  /-- The signal is the overhead time, as the bits of a `double`. -/
  | overhead
deriving DecidableEq, Repr

/-- `record_s`. -/
structure Record where
  time : ℤ
  process : ℤ
  event : Event
  signal : ℕ
deriving DecidableEq, Repr

/-- `short_region_s`. -/
structure ShortRegion where
  hash : ℕ
  numComplete : ℕ
  totalTime : ℤ
deriving DecidableEq, Repr

/-- The record is the entry into a region, or the exit from one. -/
def Record.isBoundary (r : Record) : Bool :=
  r.event == .regionEntry || r.event == .regionExit

/-- The members of `ValidateRecord`. -/
structure ValidateRecord where
  isEmpty : Bool := true
  time : ℤ := 0
  process : ℤ := -1
  epochCount : ℕ := 0
  regionHash : ℕ := regionHashInvalid
deriving DecidableEq, Repr

namespace ValidateRecord

def validateHash (hash : ℕ) : EStateM Exception ValidateRecord Unit :=
  if hash = regionHashInvalid ∨ uint32Max < hash then
    throw ⟨"ValidateRecord::filter(): Region hash out of bounds: %", [hash], .invalid⟩
  else pure ()

/-- The `if (m_is_empty)` of `check`: the first record determines the process and the time the
stream starts at. -/
def start (v : ValidateRecord) (record : Record) : ValidateRecord :=
  if v.isEmpty then
    { isEmpty := false, time := record.time, process := record.process, epochCount := 0,
      regionHash := regionHashInvalid }
  else v

/-- The `switch` of `check`. -/
def checkEvent (record : Record) : EStateM Exception ValidateRecord Unit := do
  let v ← get
  match record.event with
  | .regionEntry => do
    validateHash record.signal
    if v.regionHash ≠ regionHashInvalid then
      throw ⟨"ValidateRecord::filter(): Nested region entry detected. Region=%", [v.regionHash],
        .invalid⟩
    set { v with regionHash := record.signal }
  | .regionExit => do
    validateHash record.signal
    if v.regionHash = regionHashInvalid then
      throw ⟨"ValidateRecord::filter(): Region exit without entry Region=%", [v.regionHash],
        .invalid⟩
    if record.signal ≠ v.regionHash then
      throw ⟨"ValidateRecord::filter(): Region exited differs from last region entered " ++
        "Current region=% Received exit for=%", [v.regionHash, record.signal], .invalid⟩
    set { v with regionHash := regionHashInvalid }
  | .epochCount => do
    if record.signal ≠ v.epochCount + 1 then
      throw ⟨"ValidateRecord::filter(): Epoch count not monotone and contiguous. " ++
        "Current epoch=%", [v.epochCount], .invalid⟩
    set { v with epochCount := record.signal }
  | _ => pure ()

/-- `ValidateRecord::check`. -/
def check (record : Record) : EStateM Exception ValidateRecord Unit := do
  modify fun v => v.start record
  let v ← get
  if record.process ≠ v.process then
    throw ⟨"ValidateRecord::filter(): Process has changed", [], .invalid⟩
  let delta := record.time - v.time
  if delta < 0 then
    throw ⟨"ValidateRecord::filter(): Time value decreased. Delta=%", [delta], .invalid⟩
  set { v with time := record.time }
  checkEvent record

/-! ### The automaton -/

/-- The hash is that of a region. -/
def ValidHash (hash : ℕ) : Prop := hash ≠ regionHashInvalid ∧ hash ≤ uint32Max

instance (hash : ℕ) : Decidable (ValidHash hash) := by
  unfold ValidHash
  infer_instance

/-- The event may follow the records that led to `v`. -/
def Allowed (v : ValidateRecord) (r : Record) : Prop :=
  match r.event with
  | .regionEntry => ValidHash r.signal ∧ v.regionHash = regionHashInvalid
  | .regionExit => ValidHash r.signal ∧ r.signal = v.regionHash
  | .epochCount => r.signal = v.epochCount + 1
  | _ => True

instance (v : ValidateRecord) (r : Record) : Decidable (Allowed v r) := by
  unfold Allowed
  split <;> infer_instance

/-- The state after an event that may occur. -/
def advance (v : ValidateRecord) (r : Record) : ValidateRecord :=
  match r.event with
  | .regionEntry => { v with time := r.time, regionHash := r.signal }
  | .regionExit => { v with time := r.time, regionHash := regionHashInvalid }
  | .epochCount => { v with time := r.time, epochCount := r.signal }
  | _ => { v with time := r.time }

/-- The automaton: `none` when the record is rejected. -/
def step (v : ValidateRecord) (r : Record) : Option ValidateRecord :=
  let v := v.start r
  if r.process = v.process ∧ v.time ≤ r.time ∧ v.Allowed r then some (v.advance r) else none

theorem validateHash_spec (hash : ℕ) (v : ValidateRecord) :
    wp (validateHash hash) (fun _ v' => ValidHash hash ∧ v' = v) (fun _ _ => ¬ ValidHash hash) v := by
  unfold validateHash ValidHash
  rw [wp_ite, wp_throw, wp_pure]
  refine ⟨fun h => ?_, fun h => ⟨?_, rfl⟩⟩
  · omega
  · omega

variable (v : ValidateRecord)

theorem checkEvent_spec (r : Record) :
    wp (checkEvent r) (fun _ v' => v.Allowed r ∧ v' = v.advance r) (fun _ _ => ¬ v.Allowed r)
      { v with time := r.time } := by
  unfold checkEvent Allowed advance
  rw [wp_bind, wp_get]
  cases r.event
  case regionEntry =>
    simp only [wp_bind]
    refine wp_mono (validateHash_spec _ _) ?_ fun _ _ h h' => h h'.1
    rintro - _ ⟨hvalid, rfl⟩
    simp only [wp_ite, wp_bind, wp_throw, wp_set]
    refine ⟨fun h h' => h h'.2, fun h => ⟨⟨hvalid, not_not.mp h⟩, trivial⟩⟩
  case regionExit =>
    simp only [wp_bind]
    refine wp_mono (validateHash_spec _ _) ?_ fun _ _ h h' => h h'.1
    rintro - _ ⟨hvalid, rfl⟩
    simp only [wp_ite, wp_bind, wp_throw, wp_set]
    refine ⟨fun h h' => hvalid.1 (h'.2.trans h), fun _ => ⟨fun h h' => h h'.2, fun h => ?_⟩⟩
    exact ⟨⟨hvalid, not_not.mp h⟩, trivial⟩
  case epochCount =>
    simp only [wp_ite, wp_bind, wp_throw, wp_set]
    exact ⟨fun h => h, fun h => ⟨not_not.mp h, trivial⟩⟩
  all_goals exact ⟨trivial, rfl⟩

/-- `check` returns the state the automaton steps to, and raises where it has no step. -/
theorem check_spec (r : Record) :
    wp (check r) (fun _ v' => v.step r = some v') (fun _ _ => v.step r = none) v := by
  unfold check step
  simp only [wp_bind, wp_get, wp_modify, wp_ite, wp_set, wp_throw]
  refine ⟨fun h => if_neg fun h' => h h'.1, fun hprocess => ⟨fun h => ?_, fun htime => ?_⟩⟩
  · exact if_neg fun h' => by omega
  refine wp_mono (checkEvent_spec _ r) ?_ fun _ _ h => if_neg fun h' => h h'.2.2
  rintro - v' ⟨hallowed, rfl⟩
  exact if_pos ⟨not_not.mp hprocess, by omega, hallowed⟩

/-! ### Streams -/

/-- Check the records of a stream one by one. -/
def checkAll (rs : List Record) : EStateM Exception ValidateRecord Unit := rs.forM check

/-- The automaton over a stream. -/
def run (v : ValidateRecord) : List Record → Option ValidateRecord
  | [] => some v
  | r :: rs => (v.step r).bind fun v' => v'.run rs

theorem checkAll_spec (rs : List Record) :
    wp (checkAll rs) (fun _ v' => v.run rs = some v') (fun _ _ => v.run rs = none) v := by
  induction rs generalizing v with
  | nil => rfl
  | cons r rs ih =>
    change wp (check r >>= fun _ => checkAll rs) _ _ _
    rw [wp_bind, run]
    refine wp_mono (check_spec v r) (fun _ v' h => ?_) fun _ v' h => ?_
    · rw [h]; exact ih v'
    · rw [h]; rfl

/-- `checkAll` raises no exception on the stream. -/
def Accepts (v : ValidateRecord) (rs : List Record) : Prop :=
  wp (checkAll rs) (fun _ _ => True) (fun _ _ => False) v

theorem accepts_iff {v : ValidateRecord} {rs : List Record} :
    v.Accepts rs ↔ ∃ v', v.run rs = some v' := by
  constructor
  · intro h
    have hspec := wp_and h (checkAll_spec v rs)
    exact wp_const.mp (wp_mono hspec (fun _ v' h => ⟨v', h.2⟩) fun _ _ h => h.1.elim)
  · rintro ⟨v', h⟩
    refine wp_mono (checkAll_spec v rs) (fun _ _ _ => trivial) fun _ _ hnone => ?_
    rw [h] at hnone
    cases hnone

section Run

variable {v v' w : ValidateRecord} {r : Record} {rs ss : List Record}

theorem start_of_not_isEmpty (hv : v.isEmpty = false) (r : Record) : v.start r = v := by
  unfold start
  rw [hv]
  rfl

theorem start_of_isEmpty (hv : v.isEmpty = true) (r : Record) :
    v.start r = { isEmpty := false, time := r.time, process := r.process } := by
  unfold start
  rw [hv]
  rfl

theorem run_append : v.run (rs ++ ss) = (v.run rs).bind fun w => w.run ss := by
  induction rs generalizing v with
  | nil => rfl
  | cons r rs ih =>
    rw [List.cons_append, run, run, Option.bind_assoc]
    congr 1
    funext w
    exact ih

theorem run_append_eq_some :
    v.run (rs ++ ss) = some v' ↔ ∃ w, v.run rs = some w ∧ w.run ss = some v' := by
  rw [run_append, Option.bind_eq_some_iff]

theorem run_concat_eq_some :
    v.run (rs ++ [r]) = some v' ↔ ∃ w, v.run rs = some w ∧ w.step r = some v' := by
  simp only [run_append_eq_some, run, Option.bind_eq_some_iff, Option.some.injEq,
    exists_eq_right]

theorem step_eq_some : v.step r = some v' ↔
    r.process = (v.start r).process ∧ (v.start r).time ≤ r.time ∧ (v.start r).Allowed r ∧
      v' = (v.start r).advance r := by
  unfold step
  dsimp only
  split_ifs with h
  · simp only [Option.some.injEq]
    exact ⟨fun h' => ⟨h.1, h.2.1, h.2.2, h'.symm⟩, fun h' => h'.2.2.2.symm⟩
  · exact ⟨nofun, fun h' => absurd ⟨h'.1, h'.2.1, h'.2.2.1⟩ h⟩

end Run

end ValidateRecord

end Geopm
