import Mathlib

/-!
# Pairs of limits that stay in order

A device has a lower and an upper limit for each domain, and accepts a write of one of them exactly
when it leaves the two in order.

* `Pair.write` : a write of one limit; `run`, `rejected` : writes one after the other, and those
  that are rejected;
* `target` : what the limits would be if all writes were accepted;
* `run_apply`, `ofDomain_rejected` : each domain sees its own writes only;
* `twoPasses` : of writes of different limits, in any order, after which those that have been
  rejected are tried again in any order, a domain gets its target and nothing is rejected again, if
  the target is in order; otherwise some write is rejected twice;
* `Queue` : limits with writes that are pending, `due` what they come to; `Queue.settles`,
  `Queue.settles_foldl_attempt` : both forms of two passes over them;
* `Queue.Settles.commits` : when a batch leaves the pairs that are wanted.
-/

namespace PairedLimits

open List hiding get

variable {ι α : Type*}

/-- Which limit of a pair. -/
inductive Side
  | lower
  | upper
  deriving DecidableEq

def Side.other : Side → Side
  | .lower => .upper
  | .upper => .lower

/-- The limits of a domain. -/
@[ext]
structure Pair (α : Type*) where
  lower : α
  upper : α

namespace Pair

def get (p : Pair α) : Side → α
  | .lower => p.lower
  | .upper => p.upper

def put (p : Pair α) : Side → α → Pair α
  | .lower, v => ⟨v, p.upper⟩
  | .upper, v => ⟨p.lower, v⟩

@[simp] theorem get_put (p : Pair α) (side : Side) (v : α) : (p.put side v).get side = v := by
  cases side <;> rfl

/-- The limits as other values. -/
def map {β : Type*} (f : α → β) (p : Pair α) : Pair β := ⟨f p.lower, f p.upper⟩

@[simp] theorem get_map {β : Type*} (f : α → β) (p : Pair α) (side : Side) :
    (p.map f).get side = f (p.get side) := by
  cases side <;> rfl

theorem ext_get {p q : Pair α} (h : ∀ side, p.get side = q.get side) : p = q :=
  Pair.ext (h .lower) (h .upper)

end Pair

/-- A write of a limit. -/
@[ext]
structure Write (ι α : Type*) where
  domain : ι
  side : Side
  value : α

variable [LinearOrder α]

/-- The limits are in order. -/
def Pair.Ordered (p : Pair α) : Prop := p.lower ≤ p.upper

instance (p : Pair α) : Decidable p.Ordered := inferInstanceAs (Decidable (_ ≤ _))

/-- A write that leaves the limits in order is accepted, others change nothing. -/
def Pair.write (p : Pair α) (side : Side) (v : α) : Pair α :=
  if (p.put side v).Ordered then p.put side v else p

/-! ### One domain -/

/-- The limits after writes. -/
def runAt (p : Pair α) (ws : List (Write ι α)) : Pair α :=
  ws.foldl (fun p w => p.write w.side w.value) p

/-- The writes that are rejected. -/
def rejectedAt : Pair α → List (Write ι α) → List (Write ι α)
  | _, [] => []
  | p, w :: ws =>
    if (p.put w.side w.value).Ordered then rejectedAt (p.write w.side w.value) ws
    else w :: rejectedAt (p.write w.side w.value) ws

/-- The limits if all writes were accepted. -/
def target (p : Pair α) (ws : List (Write ι α)) : Pair α :=
  ws.foldl (fun p w => p.put w.side w.value) p

section Domain

variable {p : Pair α} {w w' : Write ι α} {ws ws' : List (Write ι α)} {side : Side}

theorem write_of_ordered {v : α} (h : (p.put side v).Ordered) :
    p.write side v = p.put side v := if_pos h

theorem write_of_not_ordered {v : α} (h : ¬ (p.put side v).Ordered) :
    p.write side v = p := if_neg h

theorem rejectedAt_cons_of_ordered (h : (p.put w.side w.value).Ordered) :
    rejectedAt p (w :: ws) = rejectedAt (p.put w.side w.value) ws := by
  rw [rejectedAt, if_pos h, write_of_ordered h]

theorem rejectedAt_cons_of_not_ordered (h : ¬ (p.put w.side w.value).Ordered) :
    rejectedAt p (w :: ws) = w :: rejectedAt p ws := by
  rw [rejectedAt, if_neg h, write_of_not_ordered h]

theorem runAt_cons_of_ordered (h : (p.put w.side w.value).Ordered) :
    runAt p (w :: ws) = runAt (p.put w.side w.value) ws := by
  rw [runAt, foldl_cons, write_of_ordered h]
  rfl

theorem runAt_cons_of_not_ordered (h : ¬ (p.put w.side w.value).Ordered) :
    runAt p (w :: ws) = runAt p ws := by
  rw [runAt, foldl_cons, write_of_not_ordered h]
  rfl

/-- Writes that would all be rejected are rejected in any order, and change nothing. -/
theorem rejectedAt_of_forall (h : ∀ w ∈ ws, ¬ (p.put w.side w.value).Ordered) :
    runAt p ws = p ∧ rejectedAt p ws = ws := by
  induction ws with
  | nil => exact ⟨rfl, rfl⟩
  | cons w ws ih =>
    obtain ⟨hw, hws⟩ := forall_mem_cons.mp h
    rw [runAt_cons_of_not_ordered hw, rejectedAt_cons_of_not_ordered hw, (ih hws).2]
    exact ⟨(ih hws).1, rfl⟩

omit [LinearOrder α] in
theorem get_put_of_ne {side side' : Side} (h : side' ≠ side) (p : Pair α) (v : α) :
    (p.put side v).get side' = p.get side' := by
  cases side <;> cases side' <;> first | rfl | exact absurd rfl h

/-- Writes of other limits change nothing. -/
theorem get_runAt_of_forall_ne (h : ∀ w ∈ ws, w.side ≠ side) :
    (runAt p ws).get side = p.get side := by
  induction ws generalizing p with
  | nil => rfl
  | cons w ws ih =>
    obtain ⟨hw, hws⟩ := forall_mem_cons.mp h
    refine (ih hws).trans ?_
    change (p.write w.side w.value).get side = _
    rw [Pair.write]
    split_ifs
    · exact get_put_of_ne (Ne.symm hw) p w.value
    · rfl

omit [LinearOrder α] in
/-- There are at most two writes of different limits. -/
theorem cases_of_pairwise (h : ws.Pairwise fun w w' => w.side ≠ w'.side) :
    ws = [] ∨ (∃ w, ws = [w]) ∨ ∃ w w', ws = [w, w'] ∧ w.side ≠ w'.side := by
  match ws, h with
  | [], _ => exact .inl rfl
  | [w], _ => exact .inr (.inl ⟨w, rfl⟩)
  | [w, w'], h => exact .inr (.inr ⟨w, w', rfl, by simpa using h⟩)
  | w :: w' :: w'' :: ws, h =>
    exfalso
    simp only [pairwise_cons, mem_cons, forall_eq_or_imp] at h
    obtain ⟨⟨h₁, h₂, -⟩, ⟨h₃, -⟩, -⟩ := h
    cases hw : w.side <;> cases hw' : w'.side <;> cases hw'' : w''.side <;> simp_all

omit [LinearOrder α] in
theorem put_put_comm (h : w.side ≠ w'.side) (p : Pair α) :
    (p.put w.side w.value).put w'.side w'.value =
      (p.put w'.side w'.value).put w.side w.value := by
  cases hw : w.side <;> cases hw' : w'.side <;> first | rfl | exact absurd (hw.trans hw'.symm) h

/-- When both writes together leave the limits in order, one of them does so alone. -/
theorem put_ordered_of_not (hp : p.Ordered) (h : w.side ≠ w'.side)
    (hw : ¬ (p.put w.side w.value).Ordered)
    (ht : ((p.put w.side w.value).put w'.side w'.value).Ordered) :
    (p.put w'.side w'.value).Ordered := by
  cases hside : w.side <;> cases hside' : w'.side <;>
    simp only [hside, hside', Pair.put, Pair.Ordered, ne_eq, not_true_eq_false] at * <;> order

omit [LinearOrder α] in
/-- The target keeps the limits that are not written. -/
theorem get_target_of_forall_ne (h : ∀ w ∈ ws, w.side ≠ side) :
    (target p ws).get side = p.get side := by
  induction ws generalizing p with
  | nil => rfl
  | cons w ws ih =>
    obtain ⟨hw, hws⟩ := forall_mem_cons.mp h
    exact (ih hws).trans (get_put_of_ne (Ne.symm hw) p w.value)

omit [LinearOrder α] in
/-- The target has the values that are written. -/
theorem get_target_of_mem (hws : ws.Pairwise fun w w' => w.side ≠ w'.side) (hw : w ∈ ws) :
    (target p ws).get w.side = w.value := by
  induction ws generalizing p with
  | nil => exact absurd hw not_mem_nil
  | cons w' ws ih =>
    obtain ⟨hne, hrest⟩ := pairwise_cons.mp hws
    obtain rfl | hw := mem_cons.mp hw
    · exact (get_target_of_forall_ne fun w' hw' => (hne w' hw').symm).trans
        (Pair.get_put p w.side w.value)
    · exact ih hrest hw

/-- A pass over the writes of a domain whose target is in order leaves at most one of them. -/
theorem firstPass (hp : p.Ordered) (hws : ws.Pairwise fun w w' => w.side ≠ w'.side)
    (htarget : (target p ws).Ordered) :
    rejectedAt p ws = [] ∧ runAt p ws = target p ws ∨
      ∃ w, rejectedAt p ws = [w] ∧ (runAt p ws).put w.side w.value = target p ws := by
  obtain rfl | ⟨w, rfl⟩ | ⟨w, w', rfl, hne⟩ := cases_of_pairwise hws
  · exact .inl ⟨rfl, rfl⟩
  · have hacc : (p.put w.side w.value).Ordered := htarget
    exact .inl ⟨rejectedAt_cons_of_ordered hacc, runAt_cons_of_ordered hacc⟩
  · have hboth : ((p.put w.side w.value).put w'.side w'.value).Ordered := htarget
    by_cases hw : (p.put w.side w.value).Ordered
    · refine .inl ⟨?_, ?_⟩
      · rw [rejectedAt_cons_of_ordered hw, rejectedAt_cons_of_ordered hboth, rejectedAt]
      · rw [runAt_cons_of_ordered hw, runAt_cons_of_ordered hboth]
        rfl
    · have hw' := put_ordered_of_not hp hne hw hboth
      refine .inr ⟨w, ?_, ?_⟩
      · rw [rejectedAt_cons_of_not_ordered hw, rejectedAt_cons_of_ordered hw', rejectedAt]
      · rw [runAt_cons_of_not_ordered hw, runAt_cons_of_ordered hw']
        exact (put_put_comm hne p).symm

/-- A pass over the writes of a domain whose target is not in order leaves some of them, which are
all rejected from then on. -/
theorem firstPass_of_not_ordered (hp : p.Ordered)
    (hws : ws.Pairwise fun w w' => w.side ≠ w'.side) (htarget : ¬ (target p ws).Ordered) :
    rejectedAt p ws ≠ [] ∧
      ∀ w ∈ rejectedAt p ws, ¬ ((runAt p ws).put w.side w.value).Ordered := by
  obtain rfl | ⟨w, rfl⟩ | ⟨w, w', rfl, hne⟩ := cases_of_pairwise hws
  · exact absurd hp htarget
  · have hrej : ¬ (p.put w.side w.value).Ordered := htarget
    rw [rejectedAt_cons_of_not_ordered hrej, runAt_cons_of_not_ordered hrej, rejectedAt]
    exact ⟨cons_ne_nil _ _, forall_mem_singleton.mpr hrej⟩
  · have hboth : ¬ ((p.put w.side w.value).put w'.side w'.value).Ordered := htarget
    by_cases hw : (p.put w.side w.value).Ordered
    · rw [rejectedAt_cons_of_ordered hw, runAt_cons_of_ordered hw,
        rejectedAt_cons_of_not_ordered hboth, runAt_cons_of_not_ordered hboth, rejectedAt]
      exact ⟨cons_ne_nil _ _, forall_mem_singleton.mpr hboth⟩
    · rw [rejectedAt_cons_of_not_ordered hw, runAt_cons_of_not_ordered hw]
      refine ⟨cons_ne_nil _ _, ?_⟩
      by_cases hw' : (p.put w'.side w'.value).Ordered
      · rw [rejectedAt_cons_of_ordered hw', runAt_cons_of_ordered hw', rejectedAt]
        refine forall_mem_singleton.mpr ?_
        rwa [put_put_comm hne] at hboth
      · rw [rejectedAt_cons_of_not_ordered hw', runAt_cons_of_not_ordered hw', rejectedAt]
        exact forall_mem_cons.mpr ⟨hw, forall_mem_singleton.mpr hw'⟩

/-- **Two passes over the writes of a domain**, the second one over those that the first one has
left, in any order. -/
theorem twoPassesAt (hp : p.Ordered) (hws : ws.Pairwise fun w w' => w.side ≠ w'.side)
    (hperm : ws'.Perm (rejectedAt p ws)) :
    ((target p ws).Ordered →
      runAt (runAt p ws) ws' = target p ws ∧ rejectedAt (runAt p ws) ws' = []) ∧
    (¬ (target p ws).Ordered → rejectedAt (runAt p ws) ws' ≠ []) := by
  constructor
  · intro htarget
    obtain ⟨hnone, hrun⟩ | ⟨w, hone, hput⟩ := firstPass hp hws htarget
    · rw [hnone] at hperm
      obtain rfl := perm_nil.mp hperm
      exact ⟨hrun, rfl⟩
    · rw [hone] at hperm
      obtain rfl := perm_singleton.mp hperm
      have hacc : ((runAt p ws).put w.side w.value).Ordered := hput ▸ htarget
      exact ⟨(runAt_cons_of_ordered hacc).trans hput, rejectedAt_cons_of_ordered hacc⟩
  · intro htarget
    obtain ⟨hne, hall⟩ := firstPass_of_not_ordered hp hws htarget
    rw [(rejectedAt_of_forall fun w hw => hall w (hperm.subset hw)).2]
    rintro rfl
    exact hne (nil_perm.mp hperm)

/-- What has been rejected twice would be rejected again. -/
theorem not_ordered_of_twice (hp : p.Ordered) (hws : ws.Pairwise fun w w' => w.side ≠ w'.side)
    (hperm : ws'.Perm (rejectedAt p ws)) (hw : w ∈ rejectedAt (runAt p ws) ws') :
    ¬ ((runAt (runAt p ws) ws').put w.side w.value).Ordered := by
  have htarget : ¬ (target p ws).Ordered := fun htarget => by
    rw [((twoPassesAt hp hws hperm).1 htarget).2] at hw
    exact not_mem_nil hw
  obtain ⟨-, hall⟩ := firstPass_of_not_ordered hp hws htarget
  obtain ⟨hrun, hrej⟩ := rejectedAt_of_forall fun w hw => hall w (hperm.subset hw)
  rw [hrej] at hw
  rw [hrun]
  exact hall w (hperm.subset hw)

end Domain

/-! ### All domains -/

section Domains

variable [DecidableEq ι] {limits : ι → Pair α} {w : Write ι α} {ws ws' : List (Write ι α)} {d : ι}

/-- A write to the device. -/
def step (limits : ι → Pair α) (w : Write ι α) : ι → Pair α :=
  Function.update limits w.domain ((limits w.domain).write w.side w.value)

/-- The limits after writes. -/
def run (limits : ι → Pair α) (ws : List (Write ι α)) : ι → Pair α := ws.foldl step limits

/-- The writes that are rejected. -/
def rejected : (ι → Pair α) → List (Write ι α) → List (Write ι α)
  | _, [] => []
  | limits, w :: ws =>
    if ((limits w.domain).put w.side w.value).Ordered then rejected (step limits w) ws
    else w :: rejected (step limits w) ws

/-- The writes of a domain. -/
def ofDomain (d : ι) (ws : List (Write ι α)) : List (Write ι α) :=
  ws.filter fun w => w.domain = d

omit [LinearOrder α] in
theorem ofDomain_cons_self : ofDomain w.domain (w :: ws) = w :: ofDomain w.domain ws := by
  simp [ofDomain]

omit [LinearOrder α] in
theorem ofDomain_cons_of_ne (h : w.domain ≠ d) : ofDomain d (w :: ws) = ofDomain d ws := by
  simp [ofDomain, h]

theorem step_of_ne (limits : ι → Pair α) (h : w.domain ≠ d) : step limits w d = limits d :=
  Function.update_of_ne (Ne.symm h) _ _

/-- **A domain sees its own writes only.** -/
theorem run_apply (limits : ι → Pair α) (ws : List (Write ι α)) (d : ι) :
    run limits ws d = runAt (limits d) (ofDomain d ws) := by
  induction ws generalizing limits with
  | nil => rfl
  | cons w ws ih =>
    rw [run, foldl_cons]
    refine (ih (step limits w)).trans ?_
    by_cases hw : w.domain = d
    · subst hw
      rw [ofDomain_cons_self, step, Function.update_self]
      rfl
    · rw [ofDomain_cons_of_ne hw, step_of_ne limits hw]

theorem ofDomain_rejected (limits : ι → Pair α) (ws : List (Write ι α)) (d : ι) :
    ofDomain d (rejected limits ws) = rejectedAt (limits d) (ofDomain d ws) := by
  induction ws generalizing limits with
  | nil => rfl
  | cons w ws ih =>
    by_cases hw : w.domain = d
    · subst hw
      rw [ofDomain_cons_self, rejectedAt, rejected]
      have hrest := ih (step limits w)
      rw [step, Function.update_self] at hrest
      split_ifs with hacc
      · exact hrest
      · rw [ofDomain_cons_self]
        exact congrArg _ hrest
    · rw [ofDomain_cons_of_ne hw, ← step_of_ne limits hw, ← ih, rejected]
      split_ifs
      · rfl
      · rw [ofDomain_cons_of_ne hw]

theorem rejected_sublist (limits : ι → Pair α) (ws : List (Write ι α)) :
    (rejected limits ws).Sublist ws := by
  induction ws generalizing limits with
  | nil => exact List.Sublist.slnil
  | cons w ws ih =>
    rw [rejected]
    split_ifs
    · exact (ih _).cons _
    · exact (ih _).cons_cons _

/-- The writes are of different limits. -/
def Distinct (ws : List (Write ι α)) : Prop :=
  ws.Pairwise fun w w' => w.domain = w'.domain → w.side ≠ w'.side

omit [LinearOrder α] [DecidableEq ι] in
theorem Distinct.perm (h : Distinct ws) (hperm : ws'.Perm ws) : Distinct ws' :=
  List.Pairwise.perm h hperm.symm fun h hd hs => h hd.symm hs.symm

omit [LinearOrder α] [DecidableEq ι] in
theorem Distinct.nodup (h : Distinct ws) : ws.Nodup :=
  h.imp fun h heq => h (congrArg Write.domain heq) (congrArg Write.side heq)

omit [LinearOrder α] in
theorem Distinct.ofDomain (h : Distinct ws) (d : ι) :
    (ofDomain d ws).Pairwise fun w w' => w.side ≠ w'.side := by
  refine (List.Pairwise.and_mem.mp (List.Pairwise.filter _ h)).imp ?_
  rintro w w' ⟨hw, hw', hside⟩
  have hd : w.domain = d := by simpa using of_mem_filter hw
  have hd' : w'.domain = d := by simpa using of_mem_filter hw'
  exact hside (hd.trans hd'.symm)

/-- **Two passes**, the second one over the writes that the first one has left, in any order. -/
theorem twoPasses (hlimits : ∀ d, (limits d).Ordered) (hws : Distinct ws)
    (hperm : ws'.Perm (rejected limits ws)) (d : ι) :
    ((target (limits d) (ofDomain d ws)).Ordered →
      run (run limits ws) ws' d = target (limits d) (ofDomain d ws) ∧
        ofDomain d (rejected (run limits ws) ws') = []) ∧
    (¬ (target (limits d) (ofDomain d ws)).Ordered →
      ofDomain d (rejected (run limits ws) ws') ≠ []) := by
  have hlocal : (ofDomain d ws').Perm (rejectedAt (limits d) (ofDomain d ws)) := by
    rw [← ofDomain_rejected]
    exact hperm.filter _
  rw [run_apply, run_apply, ofDomain_rejected, run_apply]
  exact twoPassesAt (hlimits d) (hws.ofDomain d) hlocal

/-! ### Pending writes -/

/-- The limits of a device, and the values that are still to be written. -/
structure Queue (ι α : Type*) where
  limits : ι → Pair α
  pending : ι × Side → Option α

namespace Queue

variable {q : Queue ι α} {ks : List (ι × Side)}

/-- The writes of a pass over some limits. -/
def writes (q : Queue ι α) (ks : List (ι × Side)) : List (Write ι α) :=
  ks.filterMap fun k => (q.pending k).map fun v => ⟨k.1, k.2, v⟩

/-- What a domain has when all its pending values have been written. -/
def due (q : Queue ι α) (d : ι) : Pair α :=
  ⟨(q.pending (d, .lower)).getD (q.limits d).lower,
    (q.pending (d, .upper)).getD (q.limits d).upper⟩

omit [LinearOrder α] [DecidableEq ι] in
theorem get_due (q : Queue ι α) (d : ι) (side : Side) :
    (q.due d).get side = (q.pending (d, side)).getD ((q.limits d).get side) := by
  cases side <;> rfl

omit [LinearOrder α] [DecidableEq ι] in
theorem mem_writes : w ∈ q.writes ks ↔
    (w.domain, w.side) ∈ ks ∧ q.pending (w.domain, w.side) = some w.value := by
  rw [writes, mem_filterMap]
  constructor
  · rintro ⟨k, hk, hw⟩
    obtain ⟨v, hv, rfl⟩ := Option.map_eq_some_iff.mp hw
    exact ⟨hk, hv⟩
  · rintro ⟨hk, hv⟩
    exact ⟨_, hk, by rw [hv]; rfl⟩

omit [LinearOrder α] [DecidableEq ι] in
theorem distinct_writes (hks : ks.Nodup) : Distinct (q.writes ks) := by
  rw [Distinct, writes, pairwise_filterMap]
  refine hks.imp fun {k k'} hne w hw w' hw' hdomain hside => hne ?_
  obtain ⟨_, -, rfl⟩ := Option.map_eq_some_iff.mp hw
  obtain ⟨_, -, rfl⟩ := Option.map_eq_some_iff.mp hw'
  exact Prod.ext hdomain hside

omit [LinearOrder α] in
/-- What is due is the target of the writes, in any order. -/
theorem target_writes (hks : ks.Nodup) (hall : ∀ k, k ∈ ks) (hperm : ws.Perm (q.writes ks))
    (d : ι) : target (q.limits d) (ofDomain d ws) = q.due d := by
  have hpairwise := ((distinct_writes hks).perm hperm).ofDomain d
  refine Pair.ext_get fun side => ?_
  rw [get_due]
  cases hpending : q.pending (d, side) with
  | some v =>
    have hmem : (⟨d, side, v⟩ : Write ι α) ∈ ofDomain d ws :=
      mem_filter.mpr ⟨hperm.symm.subset (mem_writes.mpr ⟨hall _, hpending⟩), by simp⟩
    exact get_target_of_mem hpairwise hmem
  | none =>
    refine get_target_of_forall_ne fun w hw hside => ?_
    obtain ⟨hw, hdomain⟩ := mem_filter.mp hw
    have hd : w.domain = d := by simpa using hdomain
    have hvalue := (mem_writes.mp (hperm.subset hw)).2
    rw [hd, hside, hpending] at hvalue
    cases hvalue

/-- The limits of a device after a batch of the pending writes, which `returned` if none of them has
failed. -/
structure Settles (q : Queue ι α) (returned : Bool) (limits : ι → Pair α) : Prop where
  returned_iff : returned = true ↔ ∀ d, (q.due d).Ordered
  limits_eq : ∀ d, (q.due d).Ordered → limits d = q.due d
  get_eq : ∀ d side, q.pending (d, side) = none → (limits d).get side = (q.limits d).get side

/-- **Two passes settle a queue.** -/
theorem settles (hlimits : ∀ d, (q.limits d).Ordered) (hks : ks.Nodup) (hall : ∀ k, k ∈ ks)
    (hws : ws.Perm (q.writes ks)) (hws' : ws'.Perm (rejected q.limits ws)) :
    q.Settles (decide (rejected (run q.limits ws) ws' = [])) (run (run q.limits ws) ws') := by
  have htwo := fun d => twoPasses hlimits ((distinct_writes hks).perm hws) hws' d
  simp only [target_writes hks hall hws] at htwo
  constructor
  · rw [decide_eq_true_iff]
    constructor
    · intro hnil d
      by_contra hd
      exact (htwo d).2 hd (by rw [hnil]; rfl)
    · intro hordered
      refine eq_nil_iff_forall_not_mem.mpr fun w hw => ?_
      have hmem : w ∈ ofDomain w.domain (rejected (run q.limits ws) ws') :=
        mem_filter.mpr ⟨hw, by simp⟩
      rw [((htwo w.domain).1 (hordered w.domain)).2] at hmem
      exact absurd hmem not_mem_nil
  · exact fun d hd => ((htwo d).1 hd).1
  · intro d side hclean
    have hnone : ∀ vs : List (Write ι α), vs ⊆ q.writes ks → ∀ w ∈ ofDomain d vs,
        w.side ≠ side := by
      intro vs hvs w hw hside
      obtain ⟨hw, hdomain⟩ := mem_filter.mp hw
      have hd : w.domain = d := by simpa using hdomain
      have hvalue := (mem_writes.mp (hvs hw)).2
      rw [hd, hside, hclean] at hvalue
      cases hvalue
    have hsub : ws' ⊆ q.writes ks := fun w hw =>
      hws.subset ((rejected_sublist _ _).subset (hws'.subset hw))
    rw [run_apply, run_apply, get_runAt_of_forall_ne (hnone ws' hsub),
      get_runAt_of_forall_ne (hnone ws hws.subset)]

/-- A pending write is tried; it is no longer pending when it is accepted. -/
def attempt (q : Queue ι α) (k : ι × Side) : Queue ι α :=
  match q.pending k with
  | none => q
  | some v =>
    if ((q.limits k.1).put k.2 v).Ordered then
      ⟨step q.limits ⟨k.1, k.2, v⟩, Function.update q.pending k none⟩
    else q

variable {k : ι × Side}

theorem attempt_of_none (h : q.pending k = none) : q.attempt k = q := by
  rw [attempt, h]

theorem attempt_of_ordered {v : α} (h : q.pending k = some v)
    (hv : ((q.limits k.1).put k.2 v).Ordered) : q.attempt k =
      ⟨step q.limits ⟨k.1, k.2, v⟩, Function.update q.pending k none⟩ := by
  rw [attempt, h]
  exact if_pos hv

theorem attempt_of_not_ordered {v : α} (h : q.pending k = some v)
    (hv : ¬ ((q.limits k.1).put k.2 v).Ordered) : q.attempt k = q := by
  rw [attempt, h]
  exact if_neg hv

/-- What is not pending stays so. -/
theorem pending_attempt_of_none {k k' : ι × Side} (h : q.pending k = none) :
    (q.attempt k').pending k = none := by
  cases hpending : q.pending k' with
  | none => rwa [attempt_of_none hpending]
  | some v =>
    by_cases hv : ((q.limits k'.1).put k'.2 v).Ordered
    · rw [attempt_of_ordered hpending hv]
      exact (Function.update_apply q.pending k' none k).trans (by rw [h, ite_self])
    · rwa [attempt_of_not_ordered hpending hv]

theorem pending_foldl_of_none (ks : List (ι × Side)) (h : q.pending k = none) :
    (ks.foldl attempt q).pending k = none := by
  induction ks generalizing q with
  | nil => exact h
  | cons k' ks ih => exact ih (pending_attempt_of_none h)

omit [LinearOrder α] [DecidableEq ι] in
theorem writes_eq_nil (hall : ∀ k, k ∈ ks) : q.writes ks = [] ↔ ∀ k, q.pending k = none := by
  rw [writes, filterMap_eq_nil_iff]
  exact ⟨fun h k => Option.map_eq_none_iff.mp (h k (hall k)),
    fun h k _ => Option.map_eq_none_iff.mpr (h k)⟩

omit [LinearOrder α] [DecidableEq ι] in
theorem writes_congr {q' : Queue ι α} (h : ∀ k ∈ ks, q.pending k = q'.pending k) :
    q.writes ks = q'.writes ks :=
  filterMap_congr fun k hk => by rw [h k hk]

/-- **Tries one after the other**: what is left pending is what is rejected. -/
theorem foldl_attempt (hks : ks.Nodup) (q : Queue ι α) :
    (ks.foldl attempt q).limits = run q.limits (q.writes ks) ∧
      (ks.foldl attempt q).writes ks = rejected q.limits (q.writes ks) ∧
      ∀ k ∉ ks, (ks.foldl attempt q).pending k = q.pending k := by
  induction ks generalizing q with
  | nil => exact ⟨rfl, rfl, fun _ _ => rfl⟩
  | cons k ks ih =>
    obtain ⟨hk, hrest⟩ := nodup_cons.mp hks
    obtain ⟨hrun, hleft, hframe⟩ := ih hrest (q.attempt k)
    have hself := hframe k hk
    rw [foldl_cons]
    cases hpending : q.pending k with
    | none =>
      rw [attempt_of_none hpending] at hrun hleft hframe hself ⊢
      have hwrites : ∀ r : Queue ι α, r.pending k = none → r.writes (k :: ks) = r.writes ks :=
        fun r hr => filterMap_cons_none (by rw [hr]; rfl)
      rw [hwrites q hpending, hwrites _ (hself.trans hpending)]
      exact ⟨hrun, hleft, fun k' hk' => hframe k' fun h => hk' (mem_cons_of_mem _ h)⟩
    | some v =>
      have hcons : q.writes (k :: ks) = ⟨k.1, k.2, v⟩ :: q.writes ks :=
        filterMap_cons_some (by rw [hpending]; rfl)
      rw [hcons]
      by_cases hv : ((q.limits k.1).put k.2 v).Ordered
      · rw [attempt_of_ordered hpending hv] at hrun hleft hframe hself ⊢
        have hsame : (⟨step q.limits ⟨k.1, k.2, v⟩, Function.update q.pending k none⟩ :
            Queue ι α).writes ks = q.writes ks :=
          writes_congr fun k' hk' => Function.update_of_ne (fun h : k' = k => hk (h ▸ hk')) _ _
        rw [hsame] at hrun hleft
        refine ⟨hrun, ?_, fun k' hk' => ?_⟩
        · rw [rejected, if_pos hv, ← hleft]
          have hdone := hself.trans (Function.update_self k none q.pending)
          exact filterMap_cons_none (by rw [hdone]; rfl)
        · rw [hframe k' fun h => hk' (mem_cons_of_mem _ h)]
          exact Function.update_of_ne (fun h : k' = k => hk' (h ▸ mem_cons_self)) _ _
      · rw [attempt_of_not_ordered hpending hv] at hrun hleft hframe hself ⊢
        have hstep : step q.limits (⟨k.1, k.2, v⟩ : Write ι α) = q.limits := by
          rw [step, write_of_not_ordered hv]
          exact Function.update_eq_self _ _
        refine ⟨?_, ?_, fun k' hk' => hframe k' fun h => hk' (mem_cons_of_mem _ h)⟩
        · rw [run, foldl_cons, hstep]
          exact hrun
        · rw [rejected, if_neg hv, hstep, ← hleft]
          exact filterMap_cons_some (by rw [hself, hpending]; rfl)

/-- **All pending writes are tried twice**, one after the other. -/
theorem settles_foldl_attempt (hlimits : ∀ d, (q.limits d).Ordered) (hks : ks.Nodup)
    (hall : ∀ k, k ∈ ks) (returned : Bool)
    (hreturned : returned = true ↔ ∀ k, ((ks ++ ks).foldl attempt q).pending k = none) :
    q.Settles returned ((ks ++ ks).foldl attempt q).limits := by
  obtain ⟨hrun, hleft, -⟩ := foldl_attempt hks q
  obtain ⟨hrun', hleft', -⟩ := foldl_attempt hks (ks.foldl attempt q)
  rw [hrun, hleft] at hrun' hleft'
  rw [List.foldl_append] at hreturned ⊢
  rw [← writes_eq_nil hall, hleft'] at hreturned
  rw [hrun', Bool.eq_iff_iff.mpr (hreturned.trans decide_eq_true_iff.symm)]
  exact settles hlimits hks hall (List.Perm.refl _) (List.Perm.refl _)

/-- What is still pending then would be rejected again. -/
theorem stuck_foldl_attempt (hlimits : ∀ d, (q.limits d).Ordered) (hks : ks.Nodup)
    (hall : ∀ k, k ∈ ks) {v : α}
    (hk : ((ks ++ ks).foldl attempt q).pending k = some v) :
    ¬ ((((ks ++ ks).foldl attempt q).limits k.1).put k.2 v).Ordered := by
  obtain ⟨hrun, hleft, -⟩ := foldl_attempt hks q
  obtain ⟨hrun', hleft', -⟩ := foldl_attempt hks (ks.foldl attempt q)
  rw [hrun, hleft] at hrun' hleft'
  rw [List.foldl_append] at hk ⊢
  have hmem : (⟨k.1, k.2, v⟩ : Write ι α) ∈
      (ks.foldl attempt (ks.foldl attempt q)).writes ks := mem_writes.mpr ⟨hall k, hk⟩
  rw [hleft'] at hmem
  have hlocal : (⟨k.1, k.2, v⟩ : Write ι α) ∈ ofDomain k.1 (rejected (run q.limits (q.writes ks))
      (rejected q.limits (q.writes ks))) := mem_filter.mpr ⟨hmem, by simp⟩
  rw [ofDomain_rejected, ofDomain_rejected, run_apply] at hlocal
  rw [hrun', run_apply, run_apply, ofDomain_rejected]
  exact not_ordered_of_twice (hlimits k.1) ((distinct_writes hks).ofDomain k.1)
    (List.Perm.refl _) hlocal

end Queue

/-! ### Pairs to be had -/

/-- A batch succeeds just when all the pairs can be had, and each of these is what its domain has
afterwards. -/
def Commits (pairs : ι → Option (Pair α)) (returned : Bool) (limits : ι → Pair α) : Prop :=
  (returned = true ↔ ∀ d p, pairs d = some p → p.Ordered) ∧
    ∀ d p, pairs d = some p → p.Ordered → limits d = p

omit [DecidableEq ι] in
/-- **When a batch commits pairs**: what is due of each pair that can be had is the pair, and what
is due is in order in all domains just when all the pairs can be had. -/
theorem Queue.Settles.commits {q : Queue ι α} {returned : Bool} {limits : ι → Pair α}
    {pairs : ι → Option (Pair α)} (h : q.Settles returned limits)
    (hpending : ∀ d p side v, pairs d = some p → q.pending (d, side) = some v → v = p.get side) :
    Commits pairs returned limits ↔
      (∀ d p, pairs d = some p → p.Ordered → q.due d = p) ∧
      ((∀ d, (q.due d).Ordered) ↔ ∀ d p, pairs d = some p → p.Ordered) := by
  rw [Commits, h.returned_iff]
  constructor
  · rintro ⟨hall, hpairs⟩
    refine ⟨fun d p hp hordered => Pair.ext_get fun side => ?_, hall⟩
    rw [get_due]
    cases hvalue : q.pending (d, side) with
    | some v => exact hpending d p side v hp hvalue
    | none =>
      rw [Option.getD_none, ← h.get_eq d side hvalue, hpairs d p hp hordered]
  · rintro ⟨hdue, hall⟩
    refine ⟨hall, fun d p hp hordered => ?_⟩
    have hd := hdue d p hp hordered
    rw [h.limits_eq d (hd ▸ hordered), hd]

end Domains

end PairedLimits
