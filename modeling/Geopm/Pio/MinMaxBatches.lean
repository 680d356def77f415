import Geopm.Lib.PairedLimits
import Geopm.Lib.Prog

/-!
# Batches of minimum and maximum controls

A device that has a minimum and a maximum for each domain rejects a write that does not leave them
in order, so both `SysfsIOGroup` and `LevelZeroIOGroup` try the writes of a batch that were rejected
a second time.

* `Sysfs.writeBatch` : the writes of a pass are submitted together and may be executed in any order;
  the second pass collects all failures;
* `LevelZero.writeBatch` : the writes of a pass are made in the order of the names, in which each
  control comes twice; the second pass ends at the first failure;
* `Sysfs.settles_writeBatch`, `LevelZero.settles_writeBatch` : a batch succeeds just when what its
  marked controls come to is in order in all domains, and a domain where it is in order gets it;
* `Sysfs.due`, `LevelZero.due` : what that is after pairs have been adjusted;
* `pairs_committed_iff` : when a batch commits the adjusted pairs.
-/

namespace Geopm.MinMax

open PairedLimits Prog
open Function (onFun update update_self update_of_ne)
open List hiding get modify set
open Queue

variable {n : ℕ} {α : Type}

/-- The controls of the domains. -/
def keys (n : ℕ) : List (Fin n × Side) :=
  (List.finRange n).flatMap fun d => [(d, .lower), (d, .upper)]

/-- Both controls of each of the pairs are adjusted. -/
def eachPair {σ : Type} (adjust : Fin n × Side → ℚ → σ → σ) (pairs : Fin n → Option (Pair ℚ))
    (g : σ) : σ :=
  (keys n).foldl (fun g k =>
    match pairs k.1 with
    | some p => adjust k (p.get k.2) g
    | none => g) g

/-- The pairs as values of the device. -/
def encoded (encode : ℚ → α) (pairs : Fin n → Option (Pair ℚ)) : Fin n → Option (Pair α) :=
  fun d => (pairs d).map (Pair.map encode)

/-- A domain of which a pair is adjusted is due `wanted`, others have what is `left` for them. -/
def dueOf (pairs : Fin n → Option (Pair ℚ)) (wanted : Fin n → Pair ℚ → Side → α)
    (left : Fin n → Pair α) (d : Fin n) : Pair α :=
  match pairs d with
  | some p => ⟨wanted d p .lower, wanted d p .upper⟩
  | none => left d

theorem mem_keys (k : Fin n × Side) : k ∈ keys n := by
  obtain ⟨d, side⟩ := k
  rw [keys, mem_flatMap]
  refine ⟨d, mem_finRange d, ?_⟩
  cases side <;> simp

theorem nodup_keys : (keys n).Nodup := by
  rw [keys, nodup_flatMap]
  refine ⟨fun d _ => by simp, (nodup_finRange n).imp fun hne => ?_⟩
  rw [onFun, disjoint_left]
  rintro ⟨d, side⟩ h h'
  simp only [mem_cons, Prod.mk.injEq, not_mem_nil, or_false] at h h'
  exact hne (by grind)

variable {pairs : Fin n → Option (Pair ℚ)}

theorem encoded_eq_some {encode : ℚ → α} {d : Fin n}
    {p : Pair α} : encoded encode pairs d = some p ↔ ∃ q, pairs d = some q ∧ q.map encode = p :=
  Option.map_eq_some_iff

theorem forall_encoded {encode : ℚ → α}
    {P : Fin n → Pair α → Prop} : (∀ d p, encoded encode pairs d = some p → P d p) ↔
      ∀ d q, pairs d = some q → P d (q.map encode) := by
  constructor
  · exact fun h d q hq => h d _ (encoded_eq_some.mpr ⟨q, hq, rfl⟩)
  · rintro h d p hp
    obtain ⟨q, hq, rfl⟩ := encoded_eq_some.mp hp
    exact h d q hq

theorem get_dueOf {wanted : Fin n → Pair ℚ → Side → α}
    {left : Fin n → Pair α} {d : Fin n} {p : Pair ℚ} (hp : pairs d = some p) (side : Side) :
    (dueOf pairs wanted left d).get side = wanted d p side := by
  rw [dueOf, hp]
  cases side <;> rfl

/-- **An adjustment of pairs adjusts each of their controls once**: what an observation `view` of a
control is afterwards, when an adjustment changes it by `change` and those of other controls not. -/
theorem view_eachPair {σ τ : Type} {adjust : Fin n × Side → ℚ → σ → σ}
    (view : σ → Fin n → Side → τ) (change : ℚ → τ → τ)
    (hself : ∀ d side setting g, view (adjust (d, side) setting g) d side =
      change setting (view g d side))
    (hother : ∀ k setting g d side, (d, side) ≠ k →
      view (adjust k setting g) d side = view g d side)
    (pairs : Fin n → Option (Pair ℚ)) (g : σ) (d : Fin n) (side : Side) :
    view (eachPair adjust pairs g) d side =
      ((pairs d).map fun p => change (p.get side) (view g d side)).getD (view g d side) := by
  suffices h : ∀ (ks : List (Fin n × Side)) (_ : ks.Nodup) (g : σ),
      view (ks.foldl (fun g k =>
        match pairs k.1 with
        | some p => adjust k (p.get k.2) g
        | none => g) g) d side =
      if (d, side) ∈ ks then
        ((pairs d).map fun p => change (p.get side) (view g d side)).getD (view g d side)
      else view g d side from (h (keys n) nodup_keys g).trans (if_pos (mem_keys _))
  intro ks hks g
  induction ks generalizing g with
  | nil => rfl
  | cons k ks ih =>
    obtain ⟨hk, hrest⟩ := nodup_cons.mp hks
    rw [foldl_cons, ih hrest]
    by_cases heq : (d, side) = k
    · subst heq
      rw [if_neg hk, if_pos mem_cons_self]
      dsimp only
      cases pairs d with
      | none => rfl
      | some p => exact hself d side _ g
    · have hview : view (match pairs k.1 with
          | some p => adjust k (p.get k.2) g
          | none => g) d side = view g d side := by
        cases pairs k.1 with
        | none => rfl
        | some p => exact hother k _ g d side heq
      rw [hview]
      simp [heq]

/-- The members of one control are changed. -/
theorem update_control {σ : Type} (f : Fin n → Side → σ) (k : Fin n × Side) (x : σ) (d : Fin n)
    (side : Side) :
    update f k.1 (update (f k.1) k.2 x) d side = if (d, side) = k then x else f d side := by
  obtain ⟨d', side'⟩ := k
  dsimp only
  by_cases hd : d = d'
  · subst hd
    by_cases hside : side = side'
    · subst hside
      rw [update_self, update_self, if_pos rfl]
    · rw [update_self, update_of_ne hside, if_neg (by simp [hside])]
  · rw [update_of_ne hd, if_neg (by simp [hd])]

theorem eachPair_frame {σ τ : Type} {adjust : Fin n × Side → ℚ → σ → σ} (view : σ → τ)
    (h : ∀ k setting g, view (adjust k setting g) = view g) (pairs : Fin n → Option (Pair ℚ))
    (g : σ) : view (eachPair adjust pairs g) = view g := by
  rw [eachPair]
  induction keys n generalizing g with
  | nil => rfl
  | cons k ks ih =>
    rw [foldl_cons, ih]
    cases pairs k.1 with
    | none => rfl
    | some p => exact h k _ g

/-! ### `SysfsIOGroup` -/

namespace Sysfs

/-- A pushed control: its value, which is a NaN at first, and whether it is to be written. -/
structure Slot where
  value : Option ℚ
  doWrite : Bool

/-- `adjust`. -/
def Slot.adjust (setting : ℚ) (info : Slot) : Slot :=
  if info.value ≠ some setting then ⟨some setting, true⟩ else info

/-- The pushed controls, and the limits of the device. -/
structure Group (n : ℕ) (α : Type) where
  slots : Fin n → Side → Slot
  limits : Fin n → Pair α

/-- `adjust` of one control. -/
def adjust (k : Fin n × Side) (setting : ℚ) (g : Group n α) : Group n α :=
  { g with
    slots := update g.slots k.1
      (update (g.slots k.1) k.2 ((g.slots k.1 k.2).adjust setting)) }

/-- The order in which submitted writes are executed. -/
structure Order (n : ℕ) (α : Type) where
  executed : List (Write (Fin n) α) → List (Write (Fin n) α)
  perm : ∀ ws, (executed ws).Perm ws

section Batch

variable (encode : ℚ → α)

/-- The limits, and what is to be written: the values of the marked controls that are not a NaN, as
values of the device. -/
def queue (g : Group n α) : Queue (Fin n) α where
  limits := g.limits
  pending k := if (g.slots k.1 k.2).doWrite then (g.slots k.1 k.2).value.map encode else none

variable [LinearOrder α]

/-- `write_batch_retry`; an exception names the controls that have failed. -/
def writeBatchRetry (order : Order n α) (isRetry : Bool) :
    EStateM (List (Fin n × Side)) (Group n α) Bool := do
  let g ← get
  let ops := order.executed ((queue encode g).writes (keys n))
  let failed := (rejected g.limits ops).map fun w => (w.domain, w.side)
  set ({
    slots := fun d side =>
      if ((queue encode g).pending (d, side)).isSome ∧ (d, side) ∉ failed then
        { g.slots d side with doWrite := false }
      else g.slots d side
    limits := run g.limits ops } : Group n α)
  if failed ≠ [] ∧ isRetry = true then throw failed
  pure (decide (failed ≠ []))

def writeBatch (first second : Order n α) : EStateM (List (Fin n × Side)) (Group n α) Unit := do
  if ← writeBatchRetry encode first false then
    let _ ← writeBatchRetry encode second true

/-- `write_control`, which writes at once and leaves the pushed controls alone. -/
def writeControl (k : Fin n × Side) (setting : ℚ) :
    EStateM (List (Fin n × Side)) (Group n α) Unit := do
  let g ← get
  if ((g.limits k.1).put k.2 (encode setting)).Ordered then
    set { g with limits := step g.limits ⟨k.1, k.2, encode setting⟩ }
  else throw [k]

end Batch

/-- What a domain comes to when pairs are adjusted. A control that has had the setting before and is
not marked keeps the limit that the device has. -/
def due (encode : ℚ → α) (pairs : Fin n → Option (Pair ℚ)) (g : Group n α) : Fin n → Pair α :=
  dueOf pairs (fun d p side =>
      if (g.slots d side).value = some (p.get side) ∧ (g.slots d side).doWrite = false then
        (g.limits d).get side
      else encode (p.get side))
    (queue encode g).due

section Lemmas

variable {encode : ℚ → α} {g : Group n α} {pairs : Fin n → Option (Pair ℚ)} {d : Fin n}
  {side : Side}

theorem pending_eq (g : Group n α) (d : Fin n) (side : Side) :
    (queue encode g).pending (d, side) =
      if (g.slots d side).doWrite then (g.slots d side).value.map encode else none := rfl

theorem limits_eachPair (pairs : Fin n → Option (Pair ℚ)) (g : Group n α) :
    (eachPair adjust pairs g).limits = g.limits :=
  eachPair_frame Group.limits (by intros; rfl) pairs g

theorem slots_eachPair (pairs : Fin n → Option (Pair ℚ)) (g : Group n α) (d : Fin n)
    (side : Side) : (eachPair adjust pairs g).slots d side =
      ((pairs d).map fun p => (g.slots d side).adjust (p.get side)).getD (g.slots d side) := by
  refine view_eachPair Group.slots Slot.adjust (fun d side setting g => ?_)
    (fun k setting g d side hne => ?_) pairs g d side
  · exact (update_control ..).trans (if_pos rfl)
  · exact (update_control ..).trans (if_neg hne)

/-- What is pending of an adjusted pair is the pair. -/
theorem pending_eachPair {p : Pair ℚ} (hp : pairs d = some p) :
    (queue encode (eachPair adjust pairs g)).pending (d, side) =
      if (g.slots d side).value = some (p.get side) ∧ (g.slots d side).doWrite = false then none
      else some (encode (p.get side)) := by
  have hslot := slots_eachPair pairs g d side
  rw [hp, Option.map_some, Option.getD_some, Slot.adjust] at hslot
  rw [queue]
  dsimp only
  rw [hslot]
  by_cases hvalue : (g.slots d side).value = some (p.get side)
  · cases hmark : (g.slots d side).doWrite <;> simp [hvalue, hmark]
  · simp [hvalue]

theorem due_eachPair (d : Fin n) :
    (queue encode (eachPair adjust pairs g)).due d = due encode pairs g d := by
  refine Pair.ext_get fun side => ?_
  rw [get_due]
  cases hp : pairs d with
  | some p =>
    rw [due, get_dueOf hp, pending_eachPair hp]
    split_ifs
    · exact congrArg (fun l : Fin n → Pair α => (l d).get side) (limits_eachPair pairs g)
    · rfl
  | none =>
    have hslot := slots_eachPair pairs g d side
    rw [hp, Option.map_none, Option.getD_none] at hslot
    rw [due, dueOf, hp]
    dsimp only
    rw [get_due, queue, queue]
    dsimp only
    rw [hslot, limits_eachPair]

variable [LinearOrder α]

/-- The state after a pass. -/
def passed (encode : ℚ → α) (order : Order n α) (g : Group n α) : Group n α :=
  let ops := order.executed ((queue encode g).writes (keys n))
  { slots := fun d side =>
      if ((queue encode g).pending (d, side)).isSome ∧
          (d, side) ∉ (rejected g.limits ops).map fun w => (w.domain, w.side) then
        { g.slots d side with doWrite := false }
      else g.slots d side
    limits := run g.limits ops }

theorem writeBatchRetry_eq (encode : ℚ → α) (order : Order n α) (isRetry : Bool)
    (g : Group n α) : writeBatchRetry encode order isRetry g =
      let failed := (rejected g.limits (order.executed ((queue encode g).writes (keys n)))).map
        fun w => (w.domain, w.side)
      if failed ≠ [] ∧ isRetry = true then .error failed (passed encode order g)
      else .ok (decide (failed ≠ [])) (passed encode order g) := by
  rw [writeBatchRetry]
  refine (bind_of_ok (s := g) rfl).trans ?_
  have hset : (set (passed encode order g) : EStateM (List (Fin n × Side)) (Group n α) PUnit) g =
    .ok PUnit.unit (passed encode order g) := rfl
  refine (bind_of_ok hset).trans ?_
  dsimp only
  split_ifs <;> rfl

/-- What is pending after a pass is what has been rejected. -/
theorem pending_passed (order : Order n α) (g : Group n α) (d : Fin n) (side : Side) :
    (queue encode (passed encode order g)).pending (d, side) =
      if (d, side) ∈ (rejected g.limits
          (order.executed ((queue encode g).writes (keys n)))).map fun w => (w.domain, w.side) then
        (queue encode g).pending (d, side)
      else none := by
  generalize hfailed : (rejected g.limits (order.executed ((queue encode g).writes (keys n)))).map
    (fun w => (w.domain, w.side)) = failed
  have hslots : (passed encode order g).slots d side =
      if ((queue encode g).pending (d, side)).isSome ∧ (d, side) ∉ failed then
        { g.slots d side with doWrite := false }
      else g.slots d side := hfailed ▸ rfl
  by_cases hsome : ((queue encode g).pending (d, side)).isSome = true
  · by_cases hmem : (d, side) ∈ failed
    · rw [if_neg fun h => h.2 hmem] at hslots
      rw [if_pos hmem, pending_eq, hslots]
      rfl
    · rw [if_pos ⟨hsome, hmem⟩] at hslots
      rw [if_neg hmem, pending_eq, hslots]
      rfl
  · have hnone : (queue encode g).pending (d, side) = none := by simpa using hsome
    rw [if_neg fun h => hsome h.1] at hslots
    rw [hnone, ite_self, pending_eq, hslots]
    exact hnone

theorem writes_passed (encode : ℚ → α) (order : Order n α) (g : Group n α) :
    ((queue encode (passed encode order g)).writes (keys n)).Perm
      (rejected g.limits (order.executed ((queue encode g).writes (keys n)))) := by
  have hperm := order.perm ((queue encode g).writes (keys n))
  have hsub := rejected_sublist g.limits (order.executed ((queue encode g).writes (keys n)))
  have hnodup := (distinct_writes (q := queue encode g) nodup_keys).perm hperm
  refine (perm_ext_iff_of_nodup (distinct_writes nodup_keys).nodup
    (hnodup.nodup.sublist hsub)).mpr fun w => ?_
  rw [mem_writes, pending_passed]
  constructor
  · rintro ⟨-, hvalue⟩
    split_ifs at hvalue with hleft
    obtain ⟨w', hw', hk⟩ := mem_map.mp hleft
    -- a control has one value, so the rejected write of it is this one
    have hvalue' := (Queue.mem_writes.mp (hperm.subset (hsub.subset hw'))).2
    obtain ⟨hdomain, hside⟩ := Prod.mk.inj hk
    rw [hdomain, hside, hvalue] at hvalue'
    obtain rfl : w' = w := Write.ext hdomain hside (Option.some.inj hvalue').symm
    exact hw'
  · intro hw
    rw [if_pos (mem_map_of_mem (f := fun w : Write (Fin n) α => (w.domain, w.side)) hw)]
    exact Queue.mem_writes.mp (hperm.subset (hsub.subset hw))

/-- **A batch settles what is pending**, in whatever orders its writes are executed. -/
theorem settles_writeBatch (encode : ℚ → α) (first second : Order n α) {g : Group n α}
    (hlimits : ∀ d, (g.limits d).Ordered) :
    (queue encode g).Settles (returns (writeBatch encode first second) g)
      (final (writeBatch encode first second) g).limits := by
  have hfirst := writeBatchRetry_eq encode first false g
  rw [if_neg (by simp)] at hfirst
  have hws := first.perm ((queue encode g).writes (keys n))
  generalize hops : first.executed ((queue encode g).writes (keys n)) = ops at *
  have hsettles : ∀ ws' : List (Write (Fin n) α), ws'.Perm (rejected g.limits ops) →
      (queue encode g).Settles (decide (rejected (run g.limits ops) ws' = []))
        (run (run g.limits ops) ws') :=
    fun ws' => Queue.settles (q := queue encode g) hlimits nodup_keys mem_keys hws
  have hlimits' : (passed encode first g).limits = run g.limits ops := hops ▸ rfl
  by_cases hnone : rejected g.limits ops = []
  · have hbatch : writeBatch encode first second g = .ok () (passed encode first g) := by
      rw [writeBatch, bind_of_ok hfirst, hnone]
      rfl
    rw [returns, final, hbatch]
    exact hlimits' ▸ hsettles [] (by rw [hnone])
  · have hbatch : writeBatch encode first second g =
        (writeBatchRetry encode second true >>= fun _ => pure ()) (passed encode first g) := by
      rw [writeBatch, bind_of_ok hfirst, decide_eq_true (by simpa using hnone)]
      rfl
    have hsecond := writeBatchRetry_eq encode second true (passed encode first g)
    have hws' := (second.perm _).trans (writes_passed encode first g)
    rw [hops] at hws'
    have hfinal : (passed encode second (passed encode first g)).limits =
      run (passed encode first g).limits
        (second.executed ((queue encode (passed encode first g)).writes (keys n))) := rfl
    generalize second.executed ((queue encode (passed encode first g)).writes (keys n)) = ops'
      at hsecond hws' hfinal
    rw [hlimits'] at hfinal
    have hsettle := hsettles ops' hws'
    rw [hlimits'] at hsecond
    by_cases hnone' : rejected (run g.limits ops) ops' = []
    · rw [hnone', if_neg (by simp)] at hsecond
      rw [returns, final, hbatch, bind_of_ok hsecond]
      rw [hnone'] at hsettle
      exact hfinal ▸ hsettle
    · rw [if_pos ⟨by simpa using hnone', rfl⟩] at hsecond
      rw [returns, final, hbatch, bind_of_error hsecond]
      rw [decide_eq_false hnone'] at hsettle
      exact hfinal ▸ hsettle

/-- **When a batch commits the adjusted pairs**: what each pair that can be had comes to is the
pair, and all domains come to limits in order just when all pairs can be had. -/
theorem commits_writeBatch_iff (encode : ℚ → α) (first second : Order n α)
    (pairs : Fin n → Option (Pair ℚ)) (hlimits : ∀ d, (g.limits d).Ordered) :
    Commits (encoded encode pairs)
        (returns (writeBatch encode first second) (eachPair adjust pairs g))
        (final (writeBatch encode first second) (eachPair adjust pairs g)).limits ↔
      (∀ d p, pairs d = some p → (p.map encode).Ordered →
        due encode pairs g d = p.map encode) ∧
      ((∀ d, (due encode pairs g d).Ordered) ↔
        ∀ d p, pairs d = some p → (p.map encode).Ordered) := by
  rw [(settles_writeBatch encode first second (g := eachPair adjust pairs g)
    (by rw [limits_eachPair]; exact hlimits)).commits ?_]
  · simp only [due_eachPair, forall_encoded]
  · intro d p side v hp hv
    obtain ⟨q, hq, rfl⟩ := encoded_eq_some.mp hp
    rw [pending_eachPair hq] at hv
    split_ifs at hv
    rw [Pair.get_map, Option.some.inj hv]

end Lemmas

end Sysfs

/-! ### `LevelZeroIOGroup` -/

namespace LevelZero

/-- A control: its setting, and whether it is to be written. -/
structure Control where
  setting : ℚ
  isAdjusted : Bool

/-- The frequency controls, and the limits of the device in MHz. The performance factor, which has
no partner, is left out. -/
structure Group (n : ℕ) where
  controls : Fin n → Side → Control
  limits : Fin n → Pair ℚ

/-- The names of the frequency controls, as `m_control_available` orders them. -/
inductive Name
  | maxAlias
  | minAlias
  | maxControl
  | minControl

/-- An alias shares the control of the name it stands for. -/
def Name.side : Name → Side
  | .maxAlias | .maxControl => .upper
  | .minAlias | .minControl => .lower

/-- `adjust` of one control. -/
def adjust (k : Fin n × Side) (setting : ℚ) (g : Group n) : Group n :=
  { g with
    controls := update g.controls k.1
      (update (g.controls k.1) k.2 ⟨setting, true⟩) }

/-- `read_signal` of a limit, in Hz. -/
def readSignal (side : Side) (d : Fin n) : EStateM (Fin n) (Group n) ℚ := do
  pure (((← get).limits d).get side * 1000000)

/-- `frequency_control`, which takes both limits of a domain. -/
def frequencyControl (d : Fin n) (p : Pair ℚ) : EStateM (Fin n) (Group n) Unit := do
  let g ← get
  if p.Ordered then set { g with limits := update g.limits d p }
  else throw d

/-- `write_control`: the limit that is not written is read from the device. -/
def writeControl (name : Name) (d : Fin n) (setting : ℚ) : EStateM (Fin n) (Group n) Unit :=
  match name.side with
  | .lower => do
    let currMax ← readSignal .upper d
    frequencyControl d ⟨setting / 1000000, currMax / 1000000⟩
  | .upper => do
    let currMin ← readSignal .lower d
    frequencyControl d ⟨currMin / 1000000, setting / 1000000⟩

/-- A control has been written. -/
def Group.clear (g : Group n) (k : Fin n × Side) : Group n :=
  { g with
    controls := update g.controls k.1
      (update (g.controls k.1) k.2 { g.controls k.1 k.2 with isAdjusted := false }) }

/-- The body of the loop of `write_batch`, which says whether a write has failed. -/
def writeAdjusted (doThrow : Bool) (visit : Name × Fin n) : EStateM (Fin n) (Group n) Bool := do
  let control := (← get).controls visit.2 visit.1.side
  if control.isAdjusted then
    tryCatch
      (do
        writeControl visit.1 visit.2 control.setting
        modify fun g => g.clear (visit.2, visit.1.side)
        pure false)
      fun e => if doThrow then throw e else pure true
  else pure false

/-- The loop over the controls. -/
def pass (doThrow : Bool) : List (Name × Fin n) → Bool → EStateM (Fin n) (Group n) Bool
  | [], doRetry => pure doRetry
  | visit :: visits, doRetry => do
    let failed ← writeAdjusted doThrow visit
    pass doThrow visits (doRetry || failed)

/-- The controls of `m_control_available`. -/
def visits (n : ℕ) : List (Name × Fin n) :=
  [.maxAlias, .minAlias, .maxControl, .minControl].flatMap fun name =>
    (List.finRange n).map fun d => (name, d)

def writeBatch : EStateM (Fin n) (Group n) Unit := do
  if ← pass false (visits n) false then
    let _ ← pass true (visits n) false

/-- The limits, and what is to be written. -/
def queue (g : Group n) : Queue (Fin n) ℚ where
  limits := g.limits
  pending k :=
    if (g.controls k.1 k.2).isAdjusted then some ((g.controls k.1 k.2).setting / 1000000) else none

/-- What a domain comes to when pairs are adjusted. -/
def due (pairs : Fin n → Option (Pair ℚ)) (g : Group n) : Fin n → Pair ℚ :=
  dueOf pairs (fun _ p side => p.get side / 1000000) (queue g).due

section Lemmas

variable {g : Group n} {pairs : Fin n → Option (Pair ℚ)} {d : Fin n} {side : Side}
  {visit : Name × Fin n} {doThrow : Bool}

theorem limits_eachPair (pairs : Fin n → Option (Pair ℚ)) (g : Group n) :
    (eachPair adjust pairs g).limits = g.limits :=
  eachPair_frame Group.limits (by intros; rfl) pairs g

theorem controls_eachPair (pairs : Fin n → Option (Pair ℚ)) (g : Group n) (d : Fin n)
    (side : Side) : (eachPair adjust pairs g).controls d side =
      ((pairs d).map fun p => (⟨p.get side, true⟩ : Control)).getD (g.controls d side) := by
  refine view_eachPair Group.controls (fun setting _ => ⟨setting, true⟩)
    (fun d side setting g => ?_) (fun k setting g d side hne => ?_) pairs g d side
  · exact (update_control ..).trans (if_pos rfl)
  · exact (update_control ..).trans (if_neg hne)

theorem pending_eq (g : Group n) (k : Fin n × Side) : (queue g).pending k =
    if (g.controls k.1 k.2).isAdjusted then some ((g.controls k.1 k.2).setting / 1000000)
    else none := rfl

/-- What is pending of an adjusted pair is the pair. -/
theorem pending_eachPair {p : Pair ℚ} (hp : pairs d = some p) :
    (queue (eachPair adjust pairs g)).pending (d, side) = some (p.get side / 1000000) := by
  rw [pending_eq, controls_eachPair, hp]
  rfl

theorem due_eachPair (d : Fin n) : (queue (eachPair adjust pairs g)).due d = due pairs g d := by
  refine Pair.ext_get fun side => ?_
  rw [get_due]
  cases hp : pairs d with
  | some p =>
    rw [due, get_dueOf hp, pending_eachPair hp]
    rfl
  | none =>
    have hcontrol := controls_eachPair pairs g d side
    rw [hp, Option.map_none, Option.getD_none] at hcontrol
    rw [due, dueOf, hp]
    dsimp only
    rw [get_due, pending_eq, pending_eq, hcontrol]
    exact congrArg (Option.getD _) (congrArg (fun l : Fin n → Pair ℚ => (l d).get side)
      (limits_eachPair pairs g))

theorem due_of_some {p : Pair ℚ} (hp : pairs d = some p) :
    due pairs g d = p.map (· / 1000000) :=
  Pair.ext_get fun side => by rw [due, get_dueOf hp, Pair.get_map]

theorem due_of_none (hp : pairs d = none) : due pairs g d = (queue g).due d := by
  rw [due, dueOf, hp]

theorem ordered_map_div (p : Pair ℚ) : (p.map (· / 1000000)).Ordered ↔ p.Ordered :=
  div_le_div_iff_of_pos_right (by norm_num)

theorem due_iff (pairs : Fin n → Option (Pair ℚ)) (g : Group n) :
    (∀ d p, pairs d = some p → (p.map (· / 1000000)).Ordered →
        due pairs g d = p.map (· / 1000000)) ∧
      ((∀ d, (due pairs g d).Ordered) ↔
        ∀ d p, pairs d = some p → (p.map (· / 1000000)).Ordered) ↔
    ((∀ d p, pairs d = some p → p.Ordered) →
      ∀ d, pairs d = none → ((queue g).due d).Ordered) := by
  simp only [ordered_map_div]
  constructor
  · rintro ⟨-, hall⟩ hpairs d hd
    exact due_of_none hd ▸ hall.mpr hpairs d
  · refine fun h => ⟨fun d p hp _ => due_of_some hp, fun hall d p hp => ?_, fun hpairs d => ?_⟩
    · have hdue := hall d
      rwa [due_of_some hp, ordered_map_div] at hdue
    · cases hp : pairs d with
      | none => exact due_of_none hp ▸ h hpairs d hp
      | some p =>
        rw [due_of_some hp, ordered_map_div]
        exact hpairs d p hp

theorem writeControl_eq (name : Name) (d : Fin n) (setting : ℚ) :
    writeControl name d setting g =
      frequencyControl d ((g.limits d).put name.side (setting / 1000000)) g := by
  rw [writeControl]
  cases name.side with
  | lower =>
    refine (bind_of_ok (s := g) rfl).trans ?_
    rw [mul_div_cancel_right₀ _ (by norm_num : (1000000 : ℚ) ≠ 0)]
    rfl
  | upper =>
    refine (bind_of_ok (s := g) rfl).trans ?_
    rw [mul_div_cancel_right₀ _ (by norm_num : (1000000 : ℚ) ≠ 0)]
    rfl

theorem controls_clear (k : Fin n × Side) (d : Fin n) (side : Side) :
    (g.clear k).controls d side =
      if (d, side) = k then { g.controls d side with isAdjusted := false }
      else g.controls d side := by
  refine (update_control ..).trans ?_
  by_cases hk : (d, side) = k
  · subst hk
    rfl
  · rw [if_neg hk, if_neg hk]

theorem pending_clear (k : Fin n × Side) :
    (queue (g.clear k)).pending = update (queue g).pending k none := by
  funext k'
  by_cases hk : k' = k
  · subst hk
    rw [update_self]
    simp [pending_eq, controls_clear]
  · rw [update_of_ne hk]
    simp [pending_eq, controls_clear, hk]

section Write

variable {name : Name} {v : ℚ} {doThrow : Bool}

theorem writeAdjusted_of_none (h : (queue g).pending (d, name.side) = none) :
    writeAdjusted doThrow (name, d) g = .ok false g := by
  rw [pending_eq] at h
  split_ifs at h with hadjusted
  rw [writeAdjusted]
  refine (bind_of_ok (s := g) rfl).trans ?_
  rw [if_neg hadjusted]
  rfl

theorem writeAdjusted_of_ordered (h : (queue g).pending (d, name.side) = some v)
    (hv : ((g.limits d).put name.side v).Ordered) :
    ∃ g', writeAdjusted doThrow (name, d) g = .ok false g' ∧
      queue g' = (queue g).attempt (d, name.side) := by
  have hvalue := h
  rw [pending_eq] at hvalue
  split_ifs at hvalue with hadjusted
  obtain rfl := Option.some.inj hvalue
  have hwrite : writeControl name d (g.controls d name.side).setting g = .ok ()
      { g with limits := update g.limits d ((g.limits d).put name.side
        ((g.controls d name.side).setting / 1000000)) } := by
    rw [writeControl_eq, frequencyControl]
    refine (bind_of_ok (s := g) rfl).trans ?_
    rw [if_pos hv]
    rfl
  refine ⟨Group.clear { g with limits := update g.limits d ((g.limits d).put name.side
    ((g.controls d name.side).setting / 1000000)) } (d, name.side), ?_, ?_⟩
  · rw [writeAdjusted]
    refine (bind_of_ok (s := g) rfl).trans ?_
    rw [if_pos hadjusted]
    refine tryCatch_of_ok ((bind_of_ok hwrite).trans ?_)
    rfl
  · rw [attempt_of_ordered h hv]
    refine congrArg₂ Queue.mk ?_ (pending_clear _)
    exact (congrArg (update g.limits d) (write_of_ordered hv)).symm

theorem writeAdjusted_of_not_ordered (h : (queue g).pending (d, name.side) = some v)
    (hv : ¬ ((g.limits d).put name.side v).Ordered) :
    writeAdjusted doThrow (name, d) g = if doThrow then .error d g else .ok true g := by
  rw [pending_eq] at h
  split_ifs at h with hadjusted
  obtain rfl := Option.some.inj h
  have hwrite : writeControl name d (g.controls d name.side).setting g = .error d g := by
    rw [writeControl_eq, frequencyControl]
    refine (bind_of_ok (s := g) rfl).trans ?_
    rw [if_neg hv]
    rfl
  rw [writeAdjusted]
  refine (bind_of_ok (s := g) rfl).trans ?_
  rw [if_pos hadjusted]
  refine (tryCatch_of_error (bind_of_error hwrite)).trans ?_
  cases doThrow <;> rfl

end Write

/-- The control of a visit. -/
def key (visit : Name × Fin n) : Fin n × Side := (visit.2, visit.1.side)

/-- **The first pass tries what is pending**, and when no write has failed nothing is left. -/
theorem pass_false (vs : List (Name × Fin n)) (doRetry : Bool) (g : Group n) :
    ∃ r g', pass false vs doRetry g = .ok r g' ∧
      queue g' = (vs.map key).foldl Queue.attempt (queue g) ∧
      (r = false → doRetry = false ∧ ∀ visit ∈ vs, (queue g').pending (key visit) = none) := by
  induction vs generalizing doRetry g with
  | nil => exact ⟨doRetry, g, rfl, rfl, fun h => ⟨h, nofun⟩⟩
  | cons visit vs ih =>
    obtain ⟨name, d⟩ := visit
    rw [map_cons, foldl_cons]
    -- a step that leaves the control without a pending write, or has failed
    have hstep : ∀ failed g₁, writeAdjusted false (name, d) g = .ok failed g₁ →
        queue g₁ = (queue g).attempt (d, name.side) →
        (failed = false → (queue g₁).pending (d, name.side) = none) →
        ∃ r g', pass false ((name, d) :: vs) doRetry g = .ok r g' ∧
          queue g' = (vs.map key).foldl Queue.attempt ((queue g).attempt (key (name, d))) ∧
          (r = false → doRetry = false ∧
            ∀ visit ∈ (name, d) :: vs, (queue g').pending (key visit) = none) := by
      intro failed g₁ hwrite hqueue hdone
      obtain ⟨r, g', hpass, hqueue', hnone⟩ := ih (doRetry || failed) g₁
      refine ⟨r, g', (bind_of_ok hwrite).trans hpass, hqueue' ▸ hqueue ▸ rfl, fun hr => ?_⟩
      obtain ⟨hretry, hvs⟩ := hnone hr
      rw [Bool.or_eq_false_iff] at hretry
      refine ⟨hretry.1, forall_mem_cons.mpr ⟨?_, hvs⟩⟩
      rw [hqueue']
      exact Queue.pending_foldl_of_none _ (hdone hretry.2)
    cases hpending : (queue g).pending (d, name.side) with
    | none =>
      exact hstep false g (writeAdjusted_of_none hpending)
        (Queue.attempt_of_none hpending).symm fun _ => hpending
    | some v =>
      by_cases hv : ((g.limits d).put name.side v).Ordered
      · obtain ⟨g₁, hwrite, hqueue⟩ := writeAdjusted_of_ordered hpending hv
        refine hstep false g₁ hwrite hqueue fun _ => ?_
        rw [hqueue, attempt_of_ordered hpending hv]
        exact update_self _ _ _
      · exact hstep true g (writeAdjusted_of_not_ordered hpending hv)
          (attempt_of_not_ordered hpending hv).symm nofun

/-- **The second pass over writes that would all be rejected** ends at the first of them. -/
theorem pass_true (vs : List (Name × Fin n)) (doRetry : Bool)
    (hstuck : ∀ k v, (queue g).pending k = some v → ¬ ((g.limits k.1).put k.2 v).Ordered) :
    final (pass true vs doRetry) g = g ∧
      (returns (pass true vs doRetry) g = true ↔
        ∀ visit ∈ vs, (queue g).pending (key visit) = none) := by
  induction vs generalizing doRetry with
  | nil => exact ⟨rfl, iff_of_true rfl nofun⟩
  | cons visit vs ih =>
    obtain ⟨name, d⟩ := visit
    rw [forall_mem_cons]
    cases hpending : (queue g).pending (d, name.side) with
    | none =>
      obtain ⟨hfinal, hreturns⟩ := ih (doRetry || false)
      have hpass : pass true ((name, d) :: vs) doRetry g = pass true vs (doRetry || false) g :=
        bind_of_ok (writeAdjusted_of_none hpending)
      rw [final, returns] at *
      rw [hpass]
      exact ⟨hfinal, hreturns.trans (and_iff_right hpending).symm⟩
    | some v =>
      have hpass : pass true ((name, d) :: vs) doRetry g = .error d g :=
        bind_of_error (writeAdjusted_of_not_ordered hpending (hstuck _ v hpending))
      rw [final, returns, hpass]
      exact ⟨rfl, iff_of_false (by simp) fun h => by simp [key, hpending] at h⟩

/-- The controls in the order in which they are tried. -/
def ordered (n : ℕ) : List (Fin n × Side) :=
  (List.finRange n).map (fun d => (d, .upper)) ++ (List.finRange n).map fun d => (d, .lower)

theorem map_key_visits : (visits n).map key = ordered n ++ ordered n := by
  simp [visits, ordered, key, Name.side, Function.comp_def]

theorem mem_ordered (k : Fin n × Side) : k ∈ ordered n := by
  obtain ⟨d, side⟩ := k
  cases side <;> simp [ordered]

theorem nodup_ordered : (ordered n).Nodup := by
  have hone : ∀ side : Side, ((List.finRange n).map fun d => (d, side)).Nodup := fun side =>
    (nodup_finRange n).map fun d d' h => congrArg Prod.fst h
  refine nodup_append.mpr ⟨hone .upper, hone .lower, ?_⟩
  rintro _ hk _ hk' rfl
  obtain ⟨d, -, rfl⟩ := mem_map.mp hk
  obtain ⟨d', -, h⟩ := mem_map.mp hk'
  cases h

/-- **A batch settles what is pending.** -/
theorem settles_writeBatch (hlimits : ∀ d, (g.limits d).Ordered) :
    (queue g).Settles (returns writeBatch g) (final writeBatch g).limits := by
  obtain ⟨r, g', hpass, hqueue, hnone⟩ := pass_false (visits n) false g
  rw [map_key_visits] at hqueue
  have hsettles := Queue.settles_foldl_attempt (q := queue g) hlimits nodup_ordered mem_ordered
  have hstuck := fun k v => Queue.stuck_foldl_attempt (q := queue g) (k := k) (v := v) hlimits
    nodup_ordered mem_ordered
  rw [← hqueue] at hsettles hstuck
  have hall : (∀ visit ∈ visits n, (queue g').pending (key visit) = none) ↔
      ∀ k, (queue g').pending k = none := by
    refine ⟨fun h k => ?_, fun h visit _ => h (key visit)⟩
    have hk : k ∈ (visits n).map key := map_key_visits ▸ mem_append_left _ (mem_ordered k)
    obtain ⟨visit, hvisit, rfl⟩ := mem_map.mp hk
    exact h visit hvisit
  cases r with
  | false =>
    have hbatch : writeBatch g = .ok () g' := (bind_of_ok hpass).trans rfl
    rw [returns, final, hbatch]
    exact hsettles true (iff_of_true rfl (hall.mp (hnone rfl).2))
  | true =>
    have hbatch : writeBatch g = (pass true (visits n) false >>= fun _ => pure ()) g' :=
      (bind_of_ok hpass).trans rfl
    obtain ⟨hfinal, hreturns⟩ := pass_true (visits n) false hstuck
    rw [hall] at hreturns
    rw [final] at hfinal
    rw [returns] at hreturns
    rw [returns, final, hbatch]
    cases hsecond : pass true (visits n) false g' with
    | ok a g'' =>
      rw [hsecond] at hfinal hreturns
      rw [bind_of_ok hsecond]
      subst hfinal
      exact hsettles true hreturns
    | error e g'' =>
      rw [hsecond] at hfinal hreturns
      rw [bind_of_error hsecond]
      subst hfinal
      exact hsettles false hreturns

/-- **When a batch commits the adjusted pairs**: when all of them can be had, no other domain has
pending writes that cannot be made. -/
theorem commits_writeBatch_iff (pairs : Fin n → Option (Pair ℚ))
    (hlimits : ∀ d, (g.limits d).Ordered) :
    Commits (encoded (· / 1000000) pairs) (returns writeBatch (eachPair adjust pairs g))
        (final writeBatch (eachPair adjust pairs g)).limits ↔
      ((∀ d p, pairs d = some p → p.Ordered) →
        ∀ d, pairs d = none → ((queue g).due d).Ordered) := by
  rw [(settles_writeBatch (g := eachPair adjust pairs g)
    (by rw [limits_eachPair]; exact hlimits)).commits ?_]
  · simp only [due_eachPair, forall_encoded]
    exact due_iff pairs g
  · intro d p side v hp hv
    obtain ⟨q, hq, rfl⟩ := encoded_eq_some.mp hp
    rw [pending_eachPair hq] at hv
    rw [Pair.get_map, Option.some.inj hv]

end Lemmas

end LevelZero

/-! ### Both groups -/

/-- **When a batch commits the adjusted pairs**, in both groups. -/
theorem pairs_committed_iff [LinearOrder α] (encode : ℚ → α) (first second : Sysfs.Order n α)
    (pairs : Fin n → Option (Pair ℚ)) (sysfs : Sysfs.Group n α) (levelZero : LevelZero.Group n)
    (hsysfs : ∀ d, (sysfs.limits d).Ordered) (hlevelZero : ∀ d, (levelZero.limits d).Ordered) :
    (Commits (encoded encode pairs)
        (returns (Sysfs.writeBatch encode first second) (eachPair Sysfs.adjust pairs sysfs))
        (final (Sysfs.writeBatch encode first second) (eachPair Sysfs.adjust pairs sysfs)).limits ↔
      (∀ d p, pairs d = some p → (p.map encode).Ordered →
        Sysfs.due encode pairs sysfs d = p.map encode) ∧
      ((∀ d, (Sysfs.due encode pairs sysfs d).Ordered) ↔
        ∀ d p, pairs d = some p → (p.map encode).Ordered)) ∧
    (Commits (encoded (· / 1000000) pairs)
        (returns LevelZero.writeBatch (eachPair LevelZero.adjust pairs levelZero))
        (final LevelZero.writeBatch (eachPair LevelZero.adjust pairs levelZero)).limits ↔
      ((∀ d p, pairs d = some p → p.Ordered) →
        ∀ d, pairs d = none → ((LevelZero.queue levelZero).due d).Ordered)) :=
  ⟨Sysfs.commits_writeBatch_iff encode first second pairs hsysfs,
    LevelZero.commits_writeBatch_iff pairs hlevelZero⟩

/-- Writes that are executed in the order in which they are submitted. -/
def inOrder : Sysfs.Order n α := ⟨id, fun _ => List.Perm.refl _⟩

/-- New groups of two domains, with a pair that the domains take maximum first only. -/
theorem pairs_committed_maximumFirst :
    let pairs : Fin 2 → Option (Pair ℚ) := fun _ => some ⟨5, 7⟩
    let sysfs : Sysfs.Group 2 ℤ := ⟨fun _ _ => ⟨none, false⟩, fun _ => ⟨1, 2⟩⟩
    let levelZero : LevelZero.Group 2 := ⟨fun _ _ => ⟨0, false⟩, fun _ => ⟨1, 2⟩⟩
    Commits (encoded Rat.floor pairs)
        (returns (Sysfs.writeBatch Rat.floor inOrder inOrder) (eachPair Sysfs.adjust pairs sysfs))
        (final (Sysfs.writeBatch Rat.floor inOrder inOrder)
          (eachPair Sysfs.adjust pairs sysfs)).limits ∧
      Commits (encoded (· / 1000000) pairs)
        (returns LevelZero.writeBatch (eachPair LevelZero.adjust pairs levelZero))
        (final LevelZero.writeBatch (eachPair LevelZero.adjust pairs levelZero)).limits := by
  intro pairs sysfs levelZero
  obtain ⟨hsysfs, hlevelZero⟩ := pairs_committed_iff Rat.floor inOrder inOrder pairs sysfs
    levelZero (fun _ => show (1 : ℤ) ≤ 2 by decide) (fun _ => show (1 : ℚ) ≤ 2 by decide)
  have hdue : ∀ d, Sysfs.due Rat.floor pairs sysfs d = ⟨5, 7⟩ := fun _ => by rfl
  refine ⟨hsysfs.mpr ⟨fun d p hp _ => ?_, ?_⟩, hlevelZero.mpr fun _ d hd => nomatch hd⟩
  · obtain rfl := Option.some.inj hp
    exact hdue d
  · refine iff_of_true (fun d => hdue d ▸ by decide) fun d p hp => ?_
    obtain rfl := Option.some.inj hp
    decide

/-- A maximum of 5 has been written in a batch, and then one of 3 by `write_control`. -/
def overwritten : Sysfs.Group 1 ℤ :=
  final (Sysfs.writeControl Rat.floor (Fin.last 0, .upper) 3)
    (final (Sysfs.writeBatch Rat.floor inOrder inOrder)
      (Sysfs.adjust (Fin.last 0, .upper) 5 ⟨fun _ _ => ⟨none, false⟩, fun _ => ⟨1, 4⟩⟩))

/-- When 2 and 5 are adjusted then, the batch leaves the maximum of 3. -/
theorem not_pairs_committed :
    ¬ ∀ (encode : ℚ → ℤ) (first second : Sysfs.Order 1 ℤ) (pairs : Fin 1 → Option (Pair ℚ))
        (sysfs : Sysfs.Group 1 ℤ), (∀ d, (sysfs.limits d).Ordered) →
      Commits (encoded encode pairs)
        (returns (Sysfs.writeBatch encode first second) (eachPair Sysfs.adjust pairs sysfs))
        (final (Sysfs.writeBatch encode first second)
          (eachPair Sysfs.adjust pairs sysfs)).limits := by
  intro h
  obtain ⟨-, hpairs⟩ := h Rat.floor inOrder inOrder (fun _ => some ⟨2, 5⟩) overwritten (by decide)
  have hupper := congrArg Pair.upper (hpairs 0 ⟨2, 5⟩ rfl (by decide))
  revert hupper
  decide

end Geopm.MinMax
