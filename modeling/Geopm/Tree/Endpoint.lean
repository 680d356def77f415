import Geopm.Double
import Geopm.Exception
import Geopm.Lib.Lts
import Geopm.Lib.Prog

/-!
# The endpoint and its users

A resource manager sends policies to the controller of a job and receives samples from it through
two segments of shared memory, each of which holds one vector.  Controllers of different agents
come and go, and the vectors of each have lengths of their own.

* `Values` : the vector of a segment, with its count;
* `call` : the lock sections of `EndpointImp` and `EndpointUserImp`;
* `Inv` : the segments hold the vectors that were written to them last;
* `Safe`, `Fits` : what a lock section is to do, and when the lengths are such that it does;
* `along_safe_iff` : in every interleaving the one is the other;
* `sample_overruns` : the samples of a second agent, read into the vector of the first.
-/

namespace Geopm.Endpoint

open Prog

/-! ### The segments -/

/-- The length of `geopm_endpoint_policy_shmem_s::values`. -/
def maxPolicy : ℕ := (4096 - (16 + 8)) / 8

/-- The length of `geopm_endpoint_sample_shmem_s::values`. -/
def maxSample : ℕ := (4096 - (16 + 256 + 256 + 512 + 8)) / 8

/-- The array of a segment, and how many of its values are in use. -/
structure Values (max : ℕ) where
  count : ℕ
  values : List Double
  length_eq : values.length = max
  count_le : count ≤ max

namespace Values

variable {max : ℕ}

/-- A segment of zeros. -/
def zero : Values max := ⟨0, List.replicate max (.num 0), List.length_replicate, Nat.zero_le _⟩

/-- Set the count and copy a vector to the array, where it fits. -/
def store (xs : List Double) (v : Values max) : Option (Values max) :=
  if h : xs.length ≤ max then
    some ⟨xs.length, xs ++ v.values.drop xs.length, by simp [v.length_eq, h], h⟩
  else none

/-- Copy the values in use to a vector, where they fit. -/
def load (out : List Double) (v : Values max) : Option (List Double) :=
  if v.count ≤ out.length then some (v.values.take v.count ++ out.drop v.count) else none

/-- The vector of the segment. -/
def vector (v : Values max) : List Double := v.values.take v.count

@[simp] theorem count_zero : (zero : Values max).count = 0 := rfl

@[simp] theorem vector_zero : (zero : Values max).vector = [] := rfl

theorem length_vector (v : Values max) : v.vector.length = v.count := by
  simp [vector, v.length_eq, v.count_le]

theorem store_eq_none {xs : List Double} {v : Values max} :
    v.store xs = none ↔ max < xs.length := by
  unfold store
  split_ifs with h <;> simp [h]
  omega

/-- What has been stored is the vector of the segment. -/
theorem vector_of_store {xs : List Double} {v v' : Values max} (h : v.store xs = some v') :
    v'.vector = xs := by
  unfold store at h
  split_ifs at h
  cases h
  simp [vector]

theorem load_eq_some {out ys : List Double} {v : Values max} : v.load out = some ys ↔
    v.count ≤ out.length ∧ ys = v.vector ++ out.drop v.count := by
  unfold load vector
  split_ifs with h <;> simp [h, eq_comm]

theorem load_eq_none {out : List Double} {v : Values max} :
    v.load out = none ↔ out.length < v.count := by
  unfold load
  split_ifs with h <;> simp [h]
  omega

end Values

/-- The segment of the samples. -/
structure SampleShmem where
  agent : String := ""
  data : Values maxSample

/-- The members of an `EndpointUserImp`. -/
structure User where
  policyShmem : ℕ
  sampleShmem : ℕ
  numSample : ℕ

/-- The segments by their numbers and the names that lead to them, the members of `EndpointImp`, and
the users: the policy segment that a constructor has mapped, and the objects.  The last two fields
are the history: the vectors that were written last to the segments. -/
structure State where
  policyShmems : ℕ → Values maxPolicy := fun _ => .zero
  sampleShmems : ℕ → SampleShmem := fun _ => { data := .zero }
  made : ℕ := 0
  policyLink : Option ℕ := none
  sampleLink : Option ℕ := none
  policyShmem : Option ℕ := none
  sampleShmem : Option ℕ := none
  numPolicy : ℕ := 0
  numSample : ℕ := 0
  isOpen : Bool := false
  mapped : ℕ → Option ℕ := fun _ => none
  users : ℕ → Option User := fun _ => none
  lastPolicy : ℕ → List Double := fun _ => []
  lastSample : ℕ → List Double := fun _ => []

/-- How a lock section fails: it raises, or it copies beyond an array or a vector. -/
inductive Fault where
  | raised (e : Exception)
  | overrun

/-- A lock section, with the vector that it leaves to its caller. -/
abbrev Section := EStateM Fault State (List Double)

/-- Raise an exception. -/
def raise {α : Type} (e : Exception) : EStateM Fault State α := throw (.raised e)

/-- Raise the exception, if there is one. -/
def check : Option Exception → EStateM Fault State Unit
  | some e => raise e
  | none => pure ()

/-- The copy that was made, if it was within bounds. -/
def within {α : Type} : Option α → EStateM Fault State α
  | some a => pure a
  | none => throw .overrun

namespace State

/-- Write the array of a policy segment. -/
def setPolicy (i : ℕ) (data : Values maxPolicy) (policy : List Double) (s : State) : State :=
  { s with
    policyShmems := Function.update s.policyShmems i data
    lastPolicy := Function.update s.lastPolicy i policy }

/-- Write a sample segment. -/
def setSample (i : ℕ) (shmem : SampleShmem) (sample : List Double) (s : State) : State :=
  { s with
    sampleShmems := Function.update s.sampleShmems i shmem
    lastSample := Function.update s.lastSample i sample }

end State

/-! ### The lock sections -/

/-- The exception of a method that is used before `open`. -/
def notOpen (func : String) : Exception :=
  ⟨"EndpointImp::" ++ func ++ "(): cannot use shmem before calling open()", [], .runtime⟩

/-- What `open` does before its lock: it makes the segments that are missing. -/
def make (policyError sampleError : Option Exception) : Section := do
  let s ← get
  if s.policyShmem = none then
    check policyError
    set { s with policyShmem := some s.made, policyLink := some s.made, made := s.made + 1 }
  let s ← get
  if s.sampleShmem = none then
    check sampleError
    set { s with sampleShmem := some s.made, sampleLink := some s.made, made := s.made + 1 }
  pure []

/-- What `open` does under its locks. -/
def clear : Section := do
  let s ← get
  match s.policyShmem, s.sampleShmem with
  | some p, some i =>
    let s := (s.setPolicy p .zero []).setSample i { data := .zero } []
    set { s with isOpen := true }
    pure []
  | _, _ => throw .overrun

/-- `EndpointImp::close`. -/
def close : Section := do
  let s ← get
  set { s with
    policyLink := if s.policyShmem.isSome then none else s.policyLink
    sampleLink := if s.sampleShmem.isSome then none else s.sampleLink
    policyShmem := none
    sampleShmem := none
    isOpen := false }
  pure []

def writePolicy (policy : List Double) : Section := do
  let s ← get
  if !s.isOpen then raise (notOpen "write_policy")
  if policy.length ≠ s.numPolicy then
    raise ⟨"EndpointImp::write_policy(): size of policy does not match expected.", [], .invalid⟩
  let p ← within s.policyShmem
  let data ← within ((s.policyShmems p).store policy)
  set (s.setPolicy p data policy)
  pure policy

def readSample (sample : List Double) : Section := do
  let s ← get
  if !s.isOpen then raise (notOpen "read_sample")
  if sample.length ≠ s.numSample then
    raise ⟨"EndpointImp::read_sample(): output sample vector is incorrect size.", [], .invalid⟩
  let i ← within s.sampleShmem
  let data := (s.sampleShmems i).data
  let numSample := data.count
  let sample ← within (data.load sample)
  if sample.length ≠ numSample then
    raise ⟨"EndpointImpUser::read_sample(): Data read from shmem does not match number of samples.",
      [], .invalid⟩
  pure sample

/-- `EndpointImp::get_agent`, with the numbers of policies and samples of the agents. -/
def getAgent (agents : String → Except Exception (ℕ × ℕ)) : Section := do
  let s ← get
  if !s.isOpen then raise (notOpen "get_agent")
  let i ← within s.sampleShmem
  let agent := (s.sampleShmems i).agent
  if agent ≠ "" then
    match agents agent with
    | .error e => raise e
    | .ok (numPolicy, numSample) => set { s with numPolicy := numPolicy, numSample := numSample }
  pure []

/-- What `EndpointUserImp::EndpointUserImp` does first: it maps the policy segment. -/
def mapPolicy (user : ℕ) (error : Exception) : Section := do
  let s ← get
  match s.policyLink with
  | none => raise error
  | some p =>
    set { s with mapped := Function.update s.mapped user (some p) }
    pure []

/-- What `EndpointUserImp::EndpointUserImp` does then: it maps the sample segment and says who it is.
The file for the hosts may fail at the end. -/
def attach (user : ℕ) (agentName profileName : String) (numSample : ℕ) (error : Exception)
    (hostlistError : Option Exception) : Section := do
  let s ← get
  match s.mapped user, s.sampleLink with
  | some p, some i =>
    if 256 ≤ agentName.utf8ByteSize then
      raise ⟨"EndpointImp(): Agent name is too long for endpoint storage: " ++ agentName, [],
        .invalid⟩
    if 256 ≤ profileName.utf8ByteSize then
      raise ⟨"EndpointImp(): Profile name is too long for endpoint storage: " ++ profileName, [],
        .invalid⟩
    let values := List.replicate numSample Double.nan
    let data ← within ((s.sampleShmems i).data.store values)
    let s := s.setSample i ⟨agentName, data⟩ values
    set s
    check hostlistError
    set { s with users := Function.update s.users user (some ⟨p, i, numSample⟩) }
    pure []
  | _, _ => raise error

def readPolicy (user : User) (policy : List Double) : Section := do
  let s ← get
  let data := s.policyShmems user.policyShmem
  let numPolicy := data.count
  if policy.length < numPolicy then
    raise ⟨"EndpointUserImp::read_policy(): Data read from shmem does not fit in policy vector.",
      [], .invalid⟩
  let policy := List.replicate policy.length Double.nan
  within (data.load policy)

def writeSample (user : User) (sample : List Double) : Section := do
  if sample.length ≠ user.numSample then
    raise ⟨"ShmemEndpoint::write_sample(): size of sample does not match expected.", [], .invalid⟩
  let s ← get
  let shmem := s.sampleShmems user.sampleShmem
  let data ← within (shmem.data.store sample)
  set (s.setSample user.sampleShmem { shmem with data := data } sample)
  pure sample

/-- `EndpointUserImp::~EndpointUserImp`. -/
def detach (id : ℕ) (user : User) : Section := do
  let s ← get
  let i := user.sampleShmem
  let s := s.setSample i { data := (s.sampleShmems i).data } (s.lastSample i)
  set { s with users := Function.update s.users id none }
  pure []

/-- The lock sections: those of `open` are two, and those of the constructor of a user. -/
inductive Op where
  | make (policyError sampleError : Option Exception)
  | clear
  | close
  | writePolicy (policy : List Double)
  | readSample (sample : List Double)
  | getAgent
  | mapPolicy (user : ℕ) (error : Exception)
  | attach (user : ℕ) (agentName profileName : String) (numSample : ℕ) (error : Exception)
      (hostlistError : Option Exception)
  | readPolicy (user : ℕ) (policy : List Double)
  | writeSample (user : ℕ) (sample : List Double)
  | detach (user : ℕ)

/-- A method of a user, if there is the user. -/
def ofUser (user : ℕ) (f : User → Section) : Section := do
  match (← get).users user with
  | some u => f u
  | none => pure []

/-- One lock section. -/
def call (agents : String → Except Exception (ℕ × ℕ)) : Op → Section
  | .make policyError sampleError => make policyError sampleError
  | .clear => do
    -- it follows `make` and nothing else of the endpoint
    let s ← get
    if s.policyShmem.isSome && s.sampleShmem.isSome then clear else pure []
  | .close => close
  | .writePolicy policy => writePolicy policy
  | .readSample sample => readSample sample
  | .getAgent => getAgent agents
  | .mapPolicy user error => mapPolicy user error
  | .attach user agentName profileName numSample error hostlistError =>
    attach user agentName profileName numSample error hostlistError
  | .readPolicy user policy => ofUser user (readPolicy · policy)
  | .writeSample user sample => ofUser user (writeSample · sample)
  | .detach user => ofUser user (detach user)

/-! ### What the segments hold -/

/-- The segments hold the vectors that were written to them last, an open endpoint has its segments,
and what a user writes fits. -/
structure Inv (s : State) : Prop where
  policies : ∀ p, (s.policyShmems p).vector = s.lastPolicy p
  samples : ∀ i, (s.sampleShmems i).data.vector = s.lastSample i
  opened : s.isOpen = true → (∃ p, s.policyShmem = some p) ∧ ∃ i, s.sampleShmem = some i
  users : ∀ user u, s.users user = some u → u.numSample ≤ maxSample

section Rules

variable {α : Type} {Q : α → State → Prop} {E : Fault → State → Prop} {s : State}

theorem wp_raise {e : Exception} : wp (raise e) Q E s ↔ E (.raised e) s := Iff.rfl

theorem wp_check {o : Option Exception} {Q : Unit → State → Prop} :
    wp (check o) Q E s ↔ (∀ e, o = some e → E (.raised e) s) ∧ (o = none → Q () s) := by
  cases o with
  | none => exact ⟨fun h => ⟨fun _ h => (nomatch h), fun _ => h⟩, fun h => h.2 rfl⟩
  | some e =>
    exact ⟨fun h => ⟨fun _ he => Option.some.inj he ▸ h, fun h => (nomatch h)⟩, fun h => h.1 e rfl⟩

theorem wp_within {o : Option α} :
    wp (within o) Q E s ↔ (∀ a, o = some a → Q a s) ∧ (o = none → E .overrun s) := by
  cases o with
  | none => exact ⟨fun h => ⟨fun _ h => (nomatch h), fun _ => h⟩, fun h => h.2 rfl⟩
  | some a =>
    exact ⟨fun h => ⟨fun b hb => Option.some.inj hb ▸ h, fun h => (nomatch h)⟩, fun h => h.1 a rfl⟩

end Rules

namespace Inv

variable {s : State}

theorem setPolicy (h : Inv s) {p : ℕ} {data : Values maxPolicy} {policy : List Double}
    (hdata : data.vector = policy) : Inv (s.setPolicy p data policy) := by
  refine ⟨fun q => ?_, h.samples, h.opened, h.users⟩
  by_cases hq : q = p
  · subst hq
    simpa [State.setPolicy] using hdata
  · simpa [State.setPolicy, hq] using h.policies q

theorem setSample (h : Inv s) {i : ℕ} {shmem : SampleShmem} {sample : List Double}
    (hdata : shmem.data.vector = sample) : Inv (s.setSample i shmem sample) := by
  refine ⟨h.policies, fun j => ?_, h.opened, h.users⟩
  by_cases hj : j = i
  · subst hj
    simpa [State.setSample] using hdata
  · simpa [State.setSample, hj] using h.samples j

end Inv

variable {agents : String → Except Exception (ℕ × ℕ)} {s : State}

/-- New segments and links leave the vectors as they are. -/
theorem Inv.remade (h : Inv s) {made : ℕ} {policyLink sampleLink policyShmem sampleShmem : Option ℕ}
    (hp : ∃ p, policyShmem = some p)
    (hi : (∃ i, s.sampleShmem = some i) → ∃ i, sampleShmem = some i) :
    Inv { s with
      made := made, policyLink := policyLink, sampleLink := sampleLink, policyShmem := policyShmem,
      sampleShmem := sampleShmem } :=
  ⟨h.policies, h.samples, fun hopen => ⟨hp, hi (h.opened hopen).2⟩, h.users⟩

/-- Every lock section keeps the invariant, however it ends. -/
theorem Inv.call (h : Inv s) (op : Op) :
    wp (Endpoint.call agents op) (fun _ => Inv) (fun _ => Inv) s := by
  cases op with
  | make policyError sampleError =>
    unfold Endpoint.call make
    simp only [wp_bind, wp_get, wp_ite, wp_check, wp_set, wp_pure]
    refine ⟨fun _ => ⟨fun _ _ => h, fun _ => ⟨fun _ => ⟨fun _ _ => ?_, fun _ => ?_⟩, fun _ => ?_⟩⟩,
      fun hp => ⟨fun _ => ⟨fun _ _ => h, fun _ => ?_⟩, fun _ => h⟩⟩
    · exact h.remade ⟨_, rfl⟩ id
    · exact h.remade ⟨_, rfl⟩ fun _ => ⟨_, rfl⟩
    · exact h.remade ⟨_, rfl⟩ id
    · exact h.remade (Option.ne_none_iff_exists'.mp hp) fun _ => ⟨_, rfl⟩
  | clear =>
    unfold Endpoint.call clear
    rw [wp_bind, wp_get, wp_ite]
    refine ⟨fun hmade => ?_, fun _ => h⟩
    rw [Bool.and_eq_true, Option.isSome_iff_exists, Option.isSome_iff_exists] at hmade
    obtain ⟨⟨p, hp⟩, i, hi⟩ := hmade
    rw [wp_bind, wp_get, hp, hi]
    have hclear : Inv ((s.setPolicy p .zero []).setSample i { data := .zero } []) :=
      (h.setPolicy Values.vector_zero).setSample Values.vector_zero
    exact ⟨hclear.policies, hclear.samples, fun _ => ⟨⟨p, hp⟩, i, hi⟩, hclear.users⟩
  | close => exact ⟨h.policies, h.samples, by simp, h.users⟩
  | writePolicy policy =>
    unfold Endpoint.call writePolicy
    simp only [wp_bind, wp_get, wp_ite, wp_raise, wp_within, wp_set, wp_pure]
    refine ⟨fun _ => h, fun _ => ⟨fun _ => h, fun _ => ⟨fun p _ => ⟨fun data hdata => ?_,
      fun _ => h⟩, fun _ => h⟩⟩⟩
    exact h.setPolicy (Values.vector_of_store hdata)
  | readSample sample =>
    unfold Endpoint.call readSample
    simp only [wp_bind, wp_get, wp_ite, wp_raise, wp_within, wp_pure]
    simp [h]
  | getAgent =>
    unfold Endpoint.call getAgent
    simp only [wp_bind, wp_get, wp_ite, wp_raise, wp_within]
    refine ⟨fun _ => h, fun _ => ⟨fun i _ => ⟨fun _ => ?_, fun _ => h⟩, fun _ => h⟩⟩
    cases agents (s.sampleShmems i).agent with
    | error e => exact h
    | ok nums => exact ⟨h.policies, h.samples, h.opened, h.users⟩
  | mapPolicy user error =>
    unfold Endpoint.call mapPolicy
    rw [wp_bind, wp_get]
    cases s.policyLink with
    | none => exact h
    | some p => exact ⟨h.policies, h.samples, h.opened, h.users⟩
  | attach user agentName profileName numSample error hostlistError =>
    unfold Endpoint.call attach
    rw [wp_bind, wp_get]
    cases s.mapped user with
    | none => exact h
    | some p =>
      cases s.sampleLink with
      | none => exact h
      | some i =>
        simp only [wp_bind, wp_ite, wp_raise, wp_check, wp_within, wp_set, wp_pure]
        refine ⟨fun _ => h, fun _ => ⟨fun _ => h, fun _ => ⟨fun data hdata => ?_, fun _ => h⟩⟩⟩
        have hset : Inv (s.setSample i ⟨agentName, data⟩ (List.replicate numSample .nan)) :=
          h.setSample (Values.vector_of_store hdata)
        refine ⟨fun _ _ => hset, fun _ => ⟨hset.policies, hset.samples, hset.opened, ?_⟩⟩
        intro other u hu
        by_cases hother : other = user
        · -- the samples of the user have just been stored
          subst hother
          have hu' : (⟨p, i, numSample⟩ : User) = u := by simpa using hu
          subst hu'
          have hlength := congrArg List.length (Values.vector_of_store hdata)
          rw [Values.length_vector, List.length_replicate] at hlength
          exact hlength ▸ data.count_le
        · exact h.users other u (by simpa [State.setSample, hother] using hu)
  | readPolicy user policy =>
    unfold Endpoint.call ofUser
    rw [wp_bind, wp_get]
    cases s.users user with
    | none => exact h
    | some u =>
      unfold readPolicy
      simp only [wp_bind, wp_get, wp_ite, wp_raise, wp_within]
      simp [h]
  | writeSample user sample =>
    unfold Endpoint.call ofUser
    rw [wp_bind, wp_get]
    cases s.users user with
    | none => exact h
    | some u =>
      unfold writeSample
      simp only [wp_bind, wp_get, wp_ite, wp_raise, wp_within, wp_set, wp_pure]
      refine ⟨fun _ => h, fun _ => ⟨fun data hdata => ?_, fun _ => h⟩⟩
      exact h.setSample (Values.vector_of_store hdata)
  | detach user =>
    unfold Endpoint.call ofUser
    rw [wp_bind, wp_get]
    cases hu : s.users user with
    | none => exact h
    | some u =>
      have hset : Inv (s.setSample u.sampleShmem
          { data := (s.sampleShmems u.sampleShmem).data } (s.lastSample u.sampleShmem)) :=
        h.setSample (h.samples u.sampleShmem)
      refine ⟨hset.policies, hset.samples, hset.opened, fun other v hv => ?_⟩
      by_cases hother : other = user
      · subst hother
        simp [State.setSample] at hv
      · exact h.users other v (by simpa [State.setSample, hother] using hv)

/-! ### Safety -/

/-- What a read returns to its caller: the vector that was written last, and NaN where that has no
values; but it has none at all, or as many as the caller expects. -/
structure Returned (written caller out : List Double) : Prop where
  values : out = written ++ List.replicate (caller.length - written.length) .nan
  own : written = [] ∨ written.length = caller.length

/-- What a lock section is to return. -/
def Answer (s : State) : Op → List Double → Prop
  | .readSample sample, out => ∃ i, s.sampleShmem = some i ∧ Returned (s.lastSample i) sample out
  | .readPolicy user policy, out =>
    ∀ u, s.users user = some u → Returned (s.lastPolicy u.policyShmem) policy out
  | _, _ => True

/-- A lock section raises an exception or returns what it is to return; it copies nothing beyond the
shared array or the vector of its caller. -/
def Safe (agents : String → Except Exception (ℕ × ℕ)) (s : State) (op : Op) : Prop :=
  wp (call agents op) (fun out _ => Answer s op out) (fun f _ => ∃ e, f = .raised e) s

/-- The lengths fit: the policy and the samples of a new user their segments, the samples in the
segment the vector for them, and the vector for a policy is no longer than the policy in the
segment, unless there is none. -/
def Fits (s : State) : Op → Prop
  | .writePolicy policy => s.isOpen = true → policy.length = s.numPolicy → policy.length ≤ maxPolicy
  | .attach user agentName profileName numSample _ _ =>
    (s.mapped user).isSome = true → s.sampleLink.isSome = true → agentName.utf8ByteSize < 256 →
      profileName.utf8ByteSize < 256 → numSample ≤ maxSample
  | .readSample sample => s.isOpen = true → sample.length = s.numSample →
      ∀ i, s.sampleShmem = some i → (s.sampleShmems i).data.count ≤ sample.length
  | .readPolicy user policy => ∀ u, s.users user = some u →
      (s.policyShmems u.policyShmem).count = 0 ∨
        policy.length ≤ (s.policyShmems u.policyShmem).count
  | _ => True

theorem exists_raised {e : Exception} : ∃ e', Fault.raised e = .raised e' := ⟨e, rfl⟩

theorem not_raised_overrun : ¬ ∃ e, Fault.overrun = .raised e := fun ⟨_, h⟩ => nomatch h

theorem safe_writePolicy (h : Inv s) (policy : List Double) :
    Safe agents s (.writePolicy policy) ↔ Fits s (.writePolicy policy) := by
  unfold Safe Fits call writePolicy Answer
  simp only [wp_bind, wp_get, wp_ite, wp_raise, wp_within, wp_set, wp_pure, exists_raised,
    not_raised_overrun, Values.store_eq_none, implies_true, imp_false, true_and, not_lt, not_not,
    Bool.not_eq_true', Bool.not_eq_false, ne_eq]
  refine forall₂_congr fun hopen _ => ⟨fun hsafe => ?_, fun hfits => ⟨fun _ _ => hfits, ?_⟩⟩
  · obtain ⟨⟨p, hp⟩, -⟩ := h.opened hopen
    exact hsafe.1 p hp
  · obtain ⟨⟨p, hp⟩, -⟩ := h.opened hopen
    simp [hp]

theorem safe_readSample (h : Inv s) (sample : List Double) :
    Safe agents s (.readSample sample) ↔ Fits s (.readSample sample) := by
  unfold Safe Fits call readSample Answer
  simp only [wp_bind, wp_get, wp_ite, wp_raise, wp_within, wp_pure, exists_raised,
    not_raised_overrun, Values.load_eq_none, Values.load_eq_some, implies_true, imp_false, true_and,
    not_lt, not_not, Bool.not_eq_true', Bool.not_eq_false, ne_eq]
  refine forall₂_congr fun hopen _ => ⟨fun hsafe i hi => (hsafe.1 i hi).2, fun hfits => ⟨?_, ?_⟩⟩
  · rintro i hi
    refine ⟨?_, hfits i hi⟩
    rintro out ⟨hcount, rfl⟩ hlength
    have hcount' := (s.sampleShmems i).data.length_vector
    rw [List.length_append, List.length_drop, hcount'] at hlength
    have hsame : sample.length = (s.sampleShmems i).data.count := by omega
    refine ⟨i, hi, ?_, .inr ?_⟩
    · rw [← h.samples, hcount', hsame]
      simp [← hsame]
    · rw [← h.samples, hcount', hsame]
  · obtain ⟨-, i, hi⟩ := h.opened hopen
    simp [hi]

theorem safe_readPolicy (h : Inv s) (user : ℕ) (policy : List Double) :
    Safe agents s (.readPolicy user policy) ↔ Fits s (.readPolicy user policy) := by
  unfold Safe Fits call ofUser Answer
  dsimp only
  rw [wp_bind, wp_get]
  cases hu : s.users user with
  | none => exact ⟨fun _ _ h => (nomatch h), fun _ _ h => (nomatch h)⟩
  | some u =>
    have hcount := (s.policyShmems u.policyShmem).length_vector
    have hlast := h.policies u.policyShmem
    unfold readPolicy
    simp only [wp_bind, wp_get, wp_ite, wp_raise, wp_within, exists_raised, not_raised_overrun,
      Values.load_eq_none, Values.load_eq_some, implies_true, imp_false, true_and, not_lt,
      Option.some.injEq, forall_eq', List.length_replicate, and_imp, forall_eq_apply_imp_iff]
    constructor
    · intro hsafe
      by_cases hle : policy.length ≤ (s.policyShmems u.policyShmem).count
      · exact .inr hle
      · have hown := ((hsafe (by omega)).1 (by omega)).own
        rw [← hlast, hcount, ← List.length_eq_zero_iff, hcount] at hown
        omega
    · intro hfits hle
      refine ⟨fun _ => ?_, hle⟩
      refine ⟨?_, ?_⟩
      · rw [← hlast, hcount]
        simp
      · rw [← hlast, hcount, ← List.length_eq_zero_iff, hcount]
        omega

theorem safe_attach (user : ℕ) (agentName profileName : String) (numSample : ℕ) (error : Exception)
    (hostlistError : Option Exception) :
    Safe agents s (.attach user agentName profileName numSample error hostlistError) ↔
      Fits s (.attach user agentName profileName numSample error hostlistError) := by
  unfold Safe Fits call attach Answer
  dsimp only
  rw [wp_bind, wp_get]
  cases s.mapped user with
  | none => simp [wp_raise]
  | some p =>
    cases s.sampleLink with
    | none => simp [wp_raise]
    | some i =>
      simp only [wp_bind, wp_ite, wp_raise, wp_check, wp_within, wp_set, wp_pure, exists_raised,
        not_raised_overrun, Values.store_eq_none, implies_true, imp_false, true_and, not_lt, not_le,
        Option.isSome_some, List.length_replicate, and_self, forall_const]

/-- In every state of a run, a lock section is safe just when the lengths fit. -/
theorem safe_iff (h : Inv s) (op : Op) : Safe agents s op ↔ Fits s op := by
  cases op with
  | writePolicy policy => exact safe_writePolicy h policy
  | readSample sample => exact safe_readSample h sample
  | readPolicy user policy => exact safe_readPolicy h user policy
  | attach user agentName profileName numSample error hostlistError =>
    exact safe_attach user agentName profileName numSample error hostlistError
  | make policyError sampleError =>
    refine iff_of_true ?_ trivial
    unfold Safe call make Answer
    simp only [wp_bind, wp_get, wp_ite, wp_check, wp_set, wp_pure, exists_raised, implies_true,
      and_self]
  | clear =>
    refine iff_of_true ?_ trivial
    unfold Safe call clear Answer
    rw [wp_bind, wp_get, wp_ite]
    refine ⟨fun hmade => ?_, fun _ => trivial⟩
    rw [Bool.and_eq_true, Option.isSome_iff_exists, Option.isSome_iff_exists] at hmade
    obtain ⟨⟨p, hp⟩, i, hi⟩ := hmade
    rw [wp_bind, wp_get, hp, hi]
    exact trivial
  | close => exact iff_of_true trivial trivial
  | getAgent =>
    refine iff_of_true ?_ trivial
    unfold Safe call getAgent Answer
    simp only [wp_bind, wp_get, wp_ite, wp_raise, wp_within, exists_raised, not_raised_overrun]
    refine ⟨fun _ => trivial, fun hopen => ⟨fun i _ => ⟨fun _ => ?_, fun _ => trivial⟩, ?_⟩⟩
    · cases agents (s.sampleShmems i).agent with
      | error e => exact exists_raised
      | ok nums => exact trivial
    · obtain ⟨-, i, hi⟩ := h.opened (by simpa using hopen)
      simp [hi]
  | mapPolicy user error =>
    refine iff_of_true ?_ trivial
    unfold Safe call mapPolicy Answer
    rw [wp_bind, wp_get]
    cases s.policyLink with
    | none => exact exists_raised
    | some p => exact trivial
  | writeSample user sample =>
    refine iff_of_true ?_ trivial
    unfold Safe call ofUser Answer
    rw [wp_bind, wp_get]
    cases hu : s.users user with
    | none => exact trivial
    | some u =>
      unfold writeSample
      simp only [wp_bind, wp_get, wp_ite, wp_raise, wp_within, wp_set, wp_pure, exists_raised,
        not_raised_overrun, Values.store_eq_none, implies_true, imp_false, true_and, not_lt]
      intro hlength
      have hfits := h.users user u hu
      omega
  | detach user =>
    refine iff_of_true ?_ trivial
    unfold Safe call ofUser Answer
    rw [wp_bind, wp_get]
    cases s.users user <;> exact trivial

/-! ### Interleavings -/

/-- The state after a lock section, however it ends. -/
def after (agents : String → Except Exception (ℕ × ℕ)) (s : State) (op : Op) : State :=
  final (call agents op) s

/-- A closed endpoint, and no users. -/
def start (numPolicy numSample : ℕ) : State := { numPolicy := numPolicy, numSample := numSample }

theorem inv_start (numPolicy numSample : ℕ) : Inv (start numPolicy numSample) :=
  ⟨fun _ => rfl, fun _ => rfl, fun h => (nomatch h), fun _ _ h => (nomatch h)⟩

/-- In every interleaving of the endpoint and its users all lock sections are safe just when all
lengths fit. -/
theorem along_safe_iff (agents : String → Except Exception (ℕ × ℕ)) (numPolicy numSample : ℕ)
    (ops : List Op) :
    Lts.Along (Safe agents) (after agents) (start numPolicy numSample) ops ↔
      Lts.Along Fits (after agents) (start numPolicy numSample) ops := by
  have h := inv_start numPolicy numSample
  generalize start numPolicy numSample = s at h
  induction ops generalizing s with
  | nil => exact Iff.rfl
  | cons op ops ih => exact and_congr (safe_iff h op) (ih _ (wp_final.mp (h.call op)))

/-- Agents with one policy each, and as many samples as their names have letters. -/
def letters (agent : String) : Except Exception (ℕ × ℕ) := .ok (1, agent.length)

/-- The endpoint finds an agent of two samples, an agent of three takes its place, and the samples
are read into a vector for two. -/
theorem sample_overruns :
    ¬ Lts.Along (Safe letters) (after letters) (start 0 0)
      [.make none none, .clear, .mapPolicy 0 ⟨"", [], .runtime⟩,
        .attach 0 "ab" "" 2 ⟨"", [], .runtime⟩ none, .getAgent, .detach 0,
        .mapPolicy 1 ⟨"", [], .runtime⟩, .attach 1 "abc" "" 3 ⟨"", [], .runtime⟩ none,
        .readSample [.num 0, .num 0]] := by
  rintro ⟨-, -, -, -, -, -, -, -, h, -⟩
  exact not_raised_overrun h

end Geopm.Endpoint
