import Geopm.Double
import Geopm.Lib.Lts

/-!
# The mailboxes of one level of the tree

The members of a level send samples up to its root, which is the child of rank zero itself, and
receive policies from it, through mailboxes that keep the latest vector.

* `Level.next` : the steps of the members, each of which is what happens between two points at
  which another member may come in;
* `Level.delivered_of_run` : what `receive_up` delivers has been sent since the last delivery, and
  is the latest that was sent;
* `Level.run_always` : not to write what has been written before goes unnoticed, if a policy has an
  entry and no zero changes its sign;
* `Level.empty_policy_unnoticed` : a policy without entries never arrives.
-/

namespace Geopm

open Function (update update_self update_of_ne update_eq_self)
open List

/-- The samples and the policies of `TreeCommLevel`. -/
abbrev Vec := List Double

/-- A mailbox: the flag in front of a vector, and the vector. -/
structure Slot where
  isReady : Bool
  data : Vec
deriving DecidableEq

/-- The members of `TreeCommLevelImp` that do not change. -/
structure Level where
  size : ℕ
  numSendUp : ℕ
  numSendDown : ℕ
deriving DecidableEq

namespace Level

/-- What has happened on a level. -/
inductive Event where
  | sendUp (child : ℕ) (sample : Vec)
  | receiveUp (sample : List Vec) (isComplete : Bool)
  | receiveDown (child : ℕ) (policy : Vec) (isComplete : Bool)
deriving DecidableEq

/-- The windows of a level, what its root keeps, how far it is in `receive_up` and `send_down`, and
what has happened. -/
structure State where
  sampleMailbox : ℕ → Slot
  policyMailbox : ℕ → Slot
  policyLast : ℕ → Vec
  /-- All children have sent, and nothing has been copied. -/
  isComplete : Bool := false
  /-- The policies that are being sent, and the next child to send to. -/
  sending : Option (List Vec × ℕ) := none
  log : List Event := []

/-- A step of a member. -/
inductive Action where
  | sendUp (child : ℕ) (sample : Vec)
  | receiveUpTest
  | receiveUpCopy
  | sendDown (policy : List Vec)
  | sendDownChild
  | receiveDown (child : ℕ) (policy : Vec)

variable (L : Level)

/-- `create_window`, and the constructor on the root. -/
def start : State where
  sampleMailbox _ := ⟨false, List.replicate L.numSendUp (.num 0)⟩
  policyMailbox _ := ⟨false, List.replicate L.numSendDown (.num 0)⟩
  policyLast _ := List.replicate L.numSendDown .nan

/-- Whether any entry is NaN. -/
def hasNan (v : Vec) : Bool := v.any Double.isNan

def sendUp (child : ℕ) (sample : Vec) (s : State) : State :=
  if child < L.size ∧ sample.length = L.numSendUp then
    { s with
      sampleMailbox := update s.sampleMailbox child ⟨true, sample⟩
      log := s.log ++ [.sendUp child sample] }
  else s

/-- The first locked section of `receive_up`. -/
def receiveUpTest (s : State) : State :=
  { s with isComplete := (List.range L.size).all fun child => (s.sampleMailbox child).isReady }

/-- The second locked section of `receive_up`, and its result. -/
def receiveUpCopy (s : State) : State :=
  if s.isComplete then
    let sample := (List.range L.size).map fun child => (s.sampleMailbox child).data
    { s with
      sampleMailbox := fun child => { s.sampleMailbox child with isReady := false }
      isComplete := false
      log := s.log ++ [.receiveUp sample (!sample.any hasNan)] }
  else s

/-- `send_down`, up to its loop. -/
def sendDown (policy : List Vec) (s : State) : State :=
  if policy.length = L.size ∧ policy.all fun it => it.length = L.numSendDown then
    { s with
      policyMailbox := update s.policyMailbox 0 ⟨true, policy.headD []⟩
      sending := some (policy, 1) }
  else s

/-- One iteration of the loop of `send_down`, which writes to a child unless the policy is the last
one, or `always`. -/
def sendDownChild (always : Bool) (s : State) : State :=
  match s.sending with
  | none => s
  | some (policy, child) =>
    match policy[child]? with
    | none => { s with sending := none }
    | some p =>
      let s := { s with sending := some (policy, child + 1) }
      if always || !Double.eqVec p (s.policyLast child) then
        { s with
          policyMailbox := update s.policyMailbox child ⟨true, p⟩
          policyLast := update s.policyLast child p }
      else s

def receiveDown (child : ℕ) (policy : Vec) (s : State) : State :=
  let slot := s.policyMailbox child
  if slot.isReady then
    { s with log := s.log ++ [.receiveDown child slot.data (!hasNan slot.data)] }
  else { s with log := s.log ++ [.receiveDown child policy false] }

/-- A step of a member.  The root always writes to every child if `always` is set. -/
def next (always : Bool) (s : State) : Action → State
  | .sendUp child sample => L.sendUp child sample s
  | .receiveUpTest => L.receiveUpTest s
  | .receiveUpCopy => L.receiveUpCopy s
  | .sendDown policy => L.sendDown policy s
  | .sendDownChild => sendDownChild always s
  | .receiveDown child policy => receiveDown child policy s

/-- The steps, in their order. -/
def run (always : Bool) (actions : List Action) : State :=
  actions.foldl (L.next always) L.start

/-! ### Samples -/

/-- The vector is the latest that the child has sent, and has been sent since the last delivery. -/
def Fresh (log : List Event) (child : ℕ) (sample : Vec) : Prop :=
  ∃ before after, log = before ++ .sendUp child sample :: after ∧
    ∀ e ∈ after, (∀ v, e ≠ .sendUp child v) ∧ ∀ v b, e ≠ .receiveUp v b

/-- What has been delivered was fresh, one vector for each child. -/
def Delivered (log : List Event) : Prop :=
  ∀ before sample isComplete after, log = before ++ .receiveUp sample isComplete :: after →
    sample.length = L.size ∧ ∀ child v, sample[child]? = some v → Fresh before child v

/-- What is in the mailboxes is fresh. -/
structure SampleInv (s : State) : Prop where
  fresh : ∀ child, (s.sampleMailbox child).isReady = true →
    Fresh s.log child (s.sampleMailbox child).data
  complete : s.isComplete = true → ∀ child < L.size, (s.sampleMailbox child).isReady = true
  delivered : L.Delivered s.log

variable {L} {s : State} {log : List Event} {e : Event}

theorem Fresh.concat {child : ℕ} {v : Vec} (h : Fresh log child v)
    (he : (∀ v, e ≠ .sendUp child v) ∧ ∀ v b, e ≠ .receiveUp v b) : Fresh (log ++ [e]) child v := by
  obtain ⟨before, after, rfl, hafter⟩ := h
  refine ⟨before, after ++ [e], by rw [append_assoc]; rfl, fun e' he' => ?_⟩
  obtain he' | he' := mem_append.mp he'
  · exact hafter e' he'
  · exact mem_singleton.mp he' ▸ he

theorem fresh_sendUp (log : List Event) (child : ℕ) (v : Vec) :
    Fresh (log ++ [.sendUp child v]) child v :=
  ⟨log, [], rfl, fun _ h => (not_mem_nil h).elim⟩

theorem Delivered.concat (h : L.Delivered log)
    (he : ∀ sample isComplete, e = .receiveUp sample isComplete →
      sample.length = L.size ∧ ∀ child v, sample[child]? = some v → Fresh log child v) :
    L.Delivered (log ++ [e]) := by
  intro before sample isComplete after heq
  obtain rfl | ⟨after, e', rfl⟩ := eq_nil_or_concat after
  · obtain ⟨rfl, hlast⟩ := append_inj' heq rfl
    exact he sample isComplete (singleton_inj.mp hlast)
  · rw [concat_eq_append, ← cons_append, ← append_assoc] at heq
    exact h before sample isComplete after (append_inj' heq rfl).1

theorem sampleInv_start (L : Level) : L.SampleInv L.start where
  fresh _ h := absurd h Bool.false_ne_true
  complete h := absurd h Bool.false_ne_true
  delivered before sample isComplete after h := by
    have hlength := congrArg List.length h
    rw [length_append, length_cons] at hlength
    have hzero : L.start.log.length = 0 := rfl
    omega

/-- Every step keeps the invariant of the samples. -/
theorem SampleInv.next (always : Bool) (h : L.SampleInv s) (a : Action) :
    L.SampleInv (L.next always s a) := by
  cases a with
  | sendUp child sample =>
    unfold Level.next sendUp
    dsimp only
    split_ifs with hguard
    · refine ⟨fun c hc => ?_, fun hcomplete c hc => ?_, h.delivered.concat fun _ _ he => nomatch he⟩
      · dsimp only at hc ⊢
        by_cases hcc : c = child
        · subst hcc
          rw [update_self]
          exact fresh_sendUp s.log c sample
        · rw [update_of_ne hcc] at hc ⊢
          refine (h.fresh c hc).concat ⟨fun v he => ?_, fun _ _ he => nomatch he⟩
          exact hcc (Event.sendUp.inj he).1.symm
      · dsimp only
        by_cases hcc : c = child
        · subst hcc
          rw [update_self]
        · rw [update_of_ne hcc]
          exact h.complete hcomplete c hc
    · exact h
  | receiveUpTest =>
    refine ⟨h.fresh, fun hcomplete c hc => ?_, h.delivered⟩
    exact all_eq_true.mp hcomplete c (mem_range.mpr hc)
  | receiveUpCopy =>
    unfold Level.next receiveUpCopy
    dsimp only
    split_ifs with hcomplete
    · refine ⟨fun c hc => ?_, fun h => absurd h Bool.false_ne_true, h.delivered.concat ?_⟩
      · exact absurd hc Bool.false_ne_true
      · rintro sample isComplete he
        obtain ⟨rfl, -⟩ := Event.receiveUp.inj he
        refine ⟨by rw [length_map, length_range], fun c v hv => ?_⟩
        rw [getElem?_map, Option.map_eq_some_iff] at hv
        obtain ⟨c', hc', rfl⟩ := hv
        obtain ⟨hlt, heq⟩ := List.getElem?_eq_some_iff.mp hc'
        rw [getElem_range] at heq
        rw [length_range] at hlt
        subst heq
        exact h.fresh c (h.complete hcomplete c hlt)
    · exact h
  | sendDown policy =>
    unfold Level.next sendDown
    dsimp only
    split_ifs
    · exact ⟨h.fresh, h.complete, h.delivered⟩
    · exact h
  | sendDownChild =>
    unfold Level.next sendDownChild
    dsimp only
    split
    · exact h
    · split
      · exact ⟨h.fresh, h.complete, h.delivered⟩
      · split_ifs <;> exact ⟨h.fresh, h.complete, h.delivered⟩
  | receiveDown child policy =>
    unfold Level.next receiveDown
    dsimp only
    split_ifs
    all_goals
      refine ⟨fun c hc => (h.fresh c hc).concat ?_, h.complete, h.delivered.concat ?_⟩
      · exact ⟨fun _ he => (nomatch he), fun _ _ he => nomatch he⟩
      · exact fun _ _ he => nomatch he

/-- **What `receive_up` delivers is the latest vector of each child, sent since the last
delivery.** -/
theorem delivered_of_run (L : Level) (always : Bool) (actions : List Action) :
    L.Delivered (L.run always actions).log := by
  have h : L.SampleInv (L.run always actions) := by
    unfold run
    induction actions using List.reverseRecOn with
    | nil => exact sampleInv_start L
    | append_singleton actions a ih =>
      rw [List.foldl_append]
      exact ih.next always a
  exact h.delivered

/-! ### Policies -/

/-- A policy that compares equal to the last one of the child is the last one, so that no zero has
changed its sign. -/
def Distinct (s : State) : Action → Prop
  | .sendDownChild => ∀ policy child p, s.sending = some (policy, child) →
      policy[child]? = some p → Double.eqVec p (s.policyLast child) = true →
        p = s.policyLast child
  | _ => True

variable (L) in
/-- What has been sent to a child is the last policy of the child. -/
structure PolicyInv (s : State) : Prop where
  last : ∀ child, child ≠ 0 → s.policyMailbox child = ⟨true, s.policyLast child⟩ ∨
    s.policyLast child = List.replicate L.numSendDown .nan
  child : ∀ policy child, s.sending = some (policy, child) → child ≠ 0

theorem policyInv_start (L : Level) : L.PolicyInv L.start where
  last _ _ := Or.inr rfl
  child _ _ h := nomatch h

/-- Every step keeps the invariant of the policies. -/
theorem PolicyInv.next (h : L.PolicyInv s) (a : Action) : L.PolicyInv (L.next true s a) := by
  cases a with
  | sendUp child sample =>
    unfold Level.next sendUp
    dsimp only
    split_ifs <;> exact ⟨h.last, h.child⟩
  | receiveUpTest => exact ⟨h.last, h.child⟩
  | receiveUpCopy =>
    unfold Level.next receiveUpCopy
    dsimp only
    split_ifs <;> exact ⟨h.last, h.child⟩
  | sendDown policy =>
    unfold Level.next sendDown
    dsimp only
    split_ifs
    · refine ⟨fun child hchild => ?_, fun policy' child hs => ?_⟩
      · dsimp only
        rw [update_of_ne hchild]
        exact h.last child hchild
      · cases hs
        exact Nat.one_ne_zero
    · exact h
  | sendDownChild =>
    unfold Level.next sendDownChild
    dsimp only
    cases hs : s.sending with
    | none => exact h
    | some sending =>
      obtain ⟨policy, child⟩ := sending
      dsimp only
      cases hp : policy[child]? with
      | none => exact ⟨h.last, fun _ _ hs => nomatch hs⟩
      | some p =>
        refine ⟨fun c hc => ?_, fun policy' c hc => ?_⟩
        · simp only [Bool.true_or, if_true]
          by_cases hcc : c = child
          · subst hcc
            rw [update_self, update_self]
            exact Or.inl rfl
          · rw [update_of_ne hcc, update_of_ne hcc]
            exact h.last c hc
        · cases hc
          exact Nat.succ_ne_zero child
  | receiveDown child policy =>
    unfold Level.next receiveDown
    dsimp only
    split_ifs <;> exact ⟨h.last, h.child⟩

theorem next_always (hdown : L.numSendDown ≠ 0) (h : L.PolicyInv s) (a : Action)
    (ha : Distinct s a) : L.next true s a = L.next false s a := by
  cases a with
  | sendDownChild =>
    change sendDownChild true s = sendDownChild false s
    unfold sendDownChild
    cases hs : s.sending with
    | none => rfl
    | some sending =>
      obtain ⟨policy, child⟩ := sending
      dsimp only
      cases hp : policy[child]? with
      | none => rfl
      | some p =>
        dsimp only
        cases heq : Double.eqVec p (s.policyLast child) with
        | false => rfl
        | true =>
          have hlast : p = s.policyLast child := ha policy child p hs hp heq
          have hslot : s.policyMailbox child = ⟨true, p⟩ := by
            obtain hslot | hnan := h.last child (h.child policy child hs)
            · rw [hslot, hlast]
            · rw [hnan, Double.eqVec_nan hdown] at heq
              exact absurd heq Bool.false_ne_true
          have hmailbox : update s.policyMailbox child ⟨true, p⟩ = s.policyMailbox := by
            rw [← hslot, update_eq_self]
          have hpolicy : update s.policyLast child p = s.policyLast := by
            rw [hlast, update_eq_self]
          rw [hmailbox, hpolicy]
          rfl
  | _ => rfl

theorem foldl_always (hdown : L.numSendDown ≠ 0) (hs : L.PolicyInv s) {actions : List Action}
    (h : Lts.Along Distinct (L.next false) s actions) :
    actions.foldl (L.next true) s = actions.foldl (L.next false) s := by
  induction actions generalizing s with
  | nil => rfl
  | cons a actions ih =>
    obtain ⟨ha, hrest⟩ := h
    have heq := next_always hdown hs a ha
    rw [foldl_cons, foldl_cons, heq]
    exact ih (heq ▸ hs.next a) hrest

/-- **The mailboxes of a level**: what `receive_up` delivers is fresh, and what is left out by
`send_down` goes unnoticed if the policies have entries and none of them equals the last one without
being the last one. -/
theorem mailbox_protocol (L : Level) (actions : List Action) :
    L.Delivered (L.run false actions).log ∧
      (L.numSendDown ≠ 0 → Lts.Along Distinct (L.next false) L.start actions →
        L.run true actions = L.run false actions) :=
  ⟨delivered_of_run L false actions, fun hdown h => foldl_always hdown (policyInv_start L) h⟩

/-- The same policy twice, of which the second is not written, and a sample of each child. -/
theorem mailbox_protocol_repeated :
    (⟨2, 1, 1⟩ : Level).run true [.sendUp 0 [.num 3], .sendUp 1 [.num 4], .receiveUpTest,
      .receiveUpCopy, .sendDown [[.num 1], [.num 2]], .sendDownChild, .receiveDown 1 [],
      .sendDown [[.num 1], [.num 2]], .sendDownChild, .receiveDown 1 []] =
    (⟨2, 1, 1⟩ : Level).run false [.sendUp 0 [.num 3], .sendUp 1 [.num 4], .receiveUpTest,
      .receiveUpCopy, .sendDown [[.num 1], [.num 2]], .sendDownChild, .receiveDown 1 [],
      .sendDown [[.num 1], [.num 2]], .sendDownChild, .receiveDown 1 []] := by
  refine (mailbox_protocol ⟨2, 1, 1⟩ _).2 Nat.one_ne_zero
    ⟨trivial, trivial, trivial, trivial, trivial, ?_, trivial, trivial, ?_, trivial, trivial⟩
  · intro policy child p hs hp heq
    cases hs
    cases hp
    exact absurd heq (by decide)
  · intro policy child p hs hp heq
    cases hs
    cases hp
    rfl

/-- A policy without entries equals the NaN that stands for no policy, and never reaches a child
that is not the root. -/
theorem empty_policy_unnoticed :
    ¬ ∀ (L : Level) (actions : List Action), (L.run true actions).log = (L.run false actions).log := by
  intro h
  have hlog := h ⟨2, 1, 0⟩ [.sendDown [[], []], .sendDownChild, .receiveDown 1 []]
  exact absurd hlog (by decide)

end Level

end Geopm
