import Geopm.Service.Runs

/-!
# Access control over whole runs

* `Grants` : for each client with an open session, the lists that `get_user_access` computed when
  the session was opened; `regrant` keeps track of them;
* `granted_of_reachable` : what the service reads, writes or passes to a batch server for a client
  is in the lists of its open session.

The lists are looked up once, when the session is opened; they outlast changes of the access lists
and restarts of the service.
-/

namespace Geopm

open AccessLists (Same getUserAccess reads_getUserAccess)

/-- The lists that `get_user_access` gives for the process `p` under the name `user`. -/
def World.accessOf (w : World) (user : String) (p : Pid) : Option (List String × List String) :=
  match getUserAccess user p w with
  | .ok lists _ => some lists
  | .error _ _ => none

/-- The user name under which a call opens a session for `p`: the one in the request, or the name
of the owner of the session leader. -/
def openedBy (w : World) (p : Pid) : Call → Option String
  | .openSession user q => if p = q then some user else none
  | .startProfile user q _ => if p = q then some user else none
  | .startBatch c _ _ => if w.leaderOf c = some p then w.userOf p else none
  | .writeControl c _ _ _ _ => if w.leaderOf c = some p then w.userOf p else none
  | .restoreControl c => if w.leaderOf c = some p then w.userOf p else none
  | _ => none

/-- The signals and controls granted to each client when its session was opened. -/
abbrev Grants := Pid → Option (List String × List String)

/-- The session of `p` goes on from `w` to `w'`. -/
def goesOn (w w' : World) (p : Pid) : Bool :=
  match w.sessions.lookup p, w'.sessions.lookup p with
  | some s, some t => decide (s.SameClient t)
  | _, _ => false

/-- The grants after an action: a session that goes on keeps its grant, a new one gets the lists
of this moment, and a closed one has none. -/
def regrant (w : World) (a : Action) (w' : World) (g : Grants) : Grants := fun p =>
  if goesOn w w' p then g p
  else if p ∈ w'.sessions then
    match a with
    | .call _ r => (openedBy w p r).bind fun user => w'.accessOf user p
    | _ => none
  else none

/-- The lists contain what is accessed. -/
def Access.inLists (lists : List String × List String) : Access → Prop
  | .readSignal name => name ∈ lists.1
  | .writeControl name => name ∈ lists.2
  | .batchSignal name => name ∈ lists.1
  | .batchControl name => name ∈ lists.2

/-- The client on whose behalf a call accesses the platform. -/
def Call.requester : Call → Option Pid
  | .readSignal c _ _ _ => some c
  | .writeControl c _ _ _ _ => some c
  | .startBatch c _ _ => some c
  | _ => none

/-- Each open session holds the lists that were granted to it. -/
def Granting (w : World) (g : Grants) : Prop :=
  ∀ p s, w.sessions.lookup p = some s → g p = some (s.signals, s.controls)

/-! ### The lists at the moment of opening -/

variable {w w' : World} {p : Pid} {user : String}

section Access

theorem accessOf_same (h : Same p w w') : w'.accessOf user p = w.accessOf user p := by
  obtain ⟨r, hr, hr'⟩ := reads_getUserAccess user w w' h
  unfold World.accessOf
  rw [hr, hr']
  cases r <;> rfl

theorem accessOf_of_ok {lists : List String × List String}
    (h : getUserAccess user p w = .ok lists w) : w.accessOf user p = some lists := by
  rw [World.accessOf, h]

theorem allowed_inLists {s : Session} {x : Access} (h : x.allowed s) :
    x.inLists (s.signals, s.controls) := by
  cases x <;> exact h

theorem goesOn_iff : goesOn w w' p = true ↔ ∃ s t, w.sessions.lookup p = some s ∧
    w'.sessions.lookup p = some t ∧ s.SameClient t := by
  unfold goesOn
  cases w.sessions.lookup p <;> cases w'.sessions.lookup p <;> simp

end Access

/-! ### Effects -/

/-- The effects of a call that opens a session for `p` under the name `user`. -/
def OpeningKind (p : Pid) (user : String) : Effect → Prop
  | .close q _ => q = p
  | .drop q _ => q = p
  | .openSession q u _ => q = p ∧ u = user
  | .startServer _ _ v _ _ _ => v ≠ p
  | .startBroken _ _ v _ _ _ => v ≠ p
  | .stopServer .. => False
  | .setConfig _ => False
  | _ => True

/-- The effect does not open a session. -/
def NotOpening : Effect → Prop
  | .openSession .. => False
  | _ => True

/-- The sessions go on from `w` to `w'`. -/
def Going (w w' : World) (p : Pid) : Prop :=
  ∀ t, w'.sessions.lookup p = some t → ∃ s, w.sessions.lookup p = some s ∧ s.Keeps t

/-- The session of `p` goes on from `w`, or has just been opened under the name `user`. -/
structure Opening (p : Pid) (user : String) (w w' : World) : Prop where
  procs : ∀ pi, w'.procs.lookup p = some pi → w.procs.lookup p = some pi
  session : ∀ t, w'.sessions.lookup p = some t →
    (∃ s, w.sessions.lookup p = some s ∧ s.Keeps t) ∨
      (p ∈ w'.procs ∧ (∀ s, w.sessions.lookup p = some s → ¬ s.SameClient t) ∧
        w'.accessOf user p = some (t.signals, t.controls))
  others : ∀ q, q ≠ p → Going w w' q

section Effects

variable {e : Effect}

theorem Going.apply (h : Going w w' p) (hguard : Effect.guard w' e)
    (he : ∀ u s, e ≠ .openSession p u s) : Going w (Effect.apply w' e) p := by
  intro t ht
  rcases lookup_apply hguard ht with ⟨s, hs, hkeeps⟩ | ⟨u, heq⟩
  · obtain ⟨s₀, hs₀, hkeeps₀⟩ := h s hs
    exact ⟨s₀, hs₀, hkeeps₀.trans hkeeps⟩
  · exact absurd heq (he u t)

/-- What `get_user_access` consults for `p` stays as it is, unless the session of `p` ends. -/
theorem same_apply (hguard : Effect.guard w e) (he : OpeningKind p user e) (hp : p ∈ w.procs)
    (hsession : p ∈ (Effect.apply w e).sessions) : Same p w (Effect.apply w e) := by
  have hinsert : ∀ {v : Pid} {proc : Proc}, v ≠ p → (w.procs.insert v proc).lookup p =
      w.procs.lookup p := fun hv => AList.lookup_insert_ne hv.symm
  cases e with
  | close q dir =>
    obtain rfl : q = p := he
    exact absurd rfl (AList.mem_erase.mp hsession).1
  | drop q lock =>
    obtain rfl : q = p := he
    exact absurd rfl (AList.mem_erase.mp hsession).1
  | startServer c s v proc signals controls => exact ⟨hinsert he, rfl, rfl, rfl⟩
  | startBroken c s v proc signals controls => exact ⟨hinsert he, rfl, rfl, rfl⟩
  | stopServer c s v => exact he.elim
  | setConfig config => exact he.elim
  | _ => exact ⟨rfl, rfl, rfl, rfl⟩

theorem procs_opening {pi : Proc} (he : OpeningKind p user e)
    (hpi : (Effect.apply w e).procs.lookup p = some pi) : w.procs.lookup p = some pi := by
  have hinsert : ∀ {v : Pid} {proc : Proc}, v ≠ p →
      (w.procs.insert v proc).lookup p = some pi → w.procs.lookup p = some pi := by
    intro v proc hv hpi
    rwa [AList.lookup_insert_ne hv.symm] at hpi
  cases e with
  | close q dir => exact (lookup_without.mp hpi).2
  | drop q lock => exact (lookup_without.mp hpi).2
  | startServer c s v proc signals controls => exact hinsert he hpi
  | startBroken c s v proc signals controls => exact hinsert he hpi
  | stopServer c s v => exact he.elim
  | _ => exact hpi

theorem Opening.apply (h : Opening p user w w') (hinactive : w.active p = false)
    (hguard : Effect.guard w' e) (he : OpeningKind p user e) :
    Opening p user w (Effect.apply w' e) := by
  refine ⟨fun pi hpi => h.procs pi (procs_opening he hpi), fun t ht => ?_, fun q hq => ?_⟩
  · rcases lookup_apply hguard ht with ⟨s, hs, hkeeps⟩ | ⟨u, rfl⟩
    · rcases h.session s hs with ⟨s₀, hs₀, hkeeps₀⟩ | ⟨hp, hnew, hlists⟩
      · exact .inl ⟨s₀, hs₀, hkeeps₀.trans hkeeps⟩
      · have hsame := same_apply hguard he hp ((Dict.mem_iff _ _).mpr ⟨t, ht⟩)
        refine .inr ⟨?_, fun s₀ hs₀ hst => hnew s₀ hs₀ (hst.trans hkeeps.client.symm), ?_⟩
        · obtain ⟨pi, hpi⟩ := (Dict.mem_iff _ _).mp hp
          exact (Dict.mem_iff _ _).mpr ⟨pi, hsame.proc.trans hpi⟩
        · rw [accessOf_same hsame, hlists, hkeeps.signals, hkeeps.controls]
    · obtain ⟨-, rfl⟩ := he
      have hsame : Same p w' (Effect.apply w' (.openSession p u t)) := ⟨rfl, rfl, rfl, rfl⟩
      obtain ⟨-, pi, signals, controls, _, hpi, rfl, hlists⟩ := hguard
      refine .inr ⟨(Dict.mem_iff _ _).mpr ⟨pi, hpi⟩, fun s₀ hs₀ hst => ?_, ?_⟩
      · -- the process that opens the session did not open the one before
        have hact : w.active p = true := by
          refine ActiveSessions.active_iff.mpr ⟨s₀, pi, hs₀, h.procs pi hpi, ?_⟩
          rw [← hst.sameProcess pi]
          exact ActiveSessions.sameProcess_iff.mpr ⟨rfl, rfl, rfl⟩
        rw [hinactive] at hact
        cases hact
      · rw [accessOf_same hsame, accessOf_of_ok hlists]
        rfl
  · refine (h.others q hq).apply hguard fun u s heq => ?_
    rw [heq] at he
    exact hq he.1

theorem Opening.quiet (h : Opening p user w w') (j : Journal) (b : Bool) :
    Opening p user w ((w'.quiet j).setActive b) := by
  have hsame : Same p w' ((w'.quiet j).setActive b) := ⟨rfl, rfl, rfl, rfl⟩
  refine ⟨h.procs, fun t ht => ?_, h.others⟩
  rw [accessOf_same hsame]
  exact h.session t ht

end Effects

/-! ### Calls -/

variable {g : Grants}

section Calls

variable {o : Outcomes} {r : Call}

theorem inactive_of_notMem {p : Pid} (hp : p ∉ w.sessions) : w.active p = false := by
  rw [World.active, (Dict.notMem_iff _ _).mp hp]

theorem onClient_opening {c : Pid} {A B : Effect → Prop}
    (hA : ∀ e, A e → WriteEffect w c e ∨ B e)
    (hB : ∀ e, B e → NotOpening e ∧ ∀ p ∈ w.procs, ∀ user, OpeningKind p user e) :
    (∀ e, OnClient w c A e → NotOpening e) ∨ ∃ p user, w.leaderOf c = some p ∧
      w.userOf p = some user ∧ w.active p = false ∧
      ∀ e, OnClient w c A e → OpeningKind p user e := by
  by_cases hopens : w.active c = true ∧ ∃ p user, w.leaderOf c = some p ∧
    w.userOf p = some user ∧ p ∉ w.sessions
  · obtain ⟨hact, p, user, hleader, huser, hp⟩ := hopens
    have hproc : p ∈ w.procs := by
      obtain ⟨_, -, -, -, hmem⟩ := PlatformService.leaderOf_eq_some.mp hleader
      exact hmem
    refine .inr ⟨p, user, hleader, huser, inactive_of_notMem hp, ?_⟩
    rintro e (⟨hn, -⟩ | ⟨-, he⟩)
    · rw [hact] at hn
      cases hn
    · rcases hA e he with he | he
      · cases e with
        | drop q lock => exact Option.some.inj (he.1.symm.trans hleader)
        | openSession q u s =>
          obtain ⟨hq, hu, -⟩ := he
          obtain rfl : q = p := Option.some.inj (hq.symm.trans hleader)
          exact ⟨rfl, Option.some.inj (hu.symm.trans huser)⟩
        | _ => first | exact he.elim | trivial
      · exact (hB e he).2 p hproc user
  · refine .inl ?_
    rintro e (⟨-, rfl | ⟨dir, rfl⟩⟩ | ⟨hact, he⟩)
    · trivial
    · trivial
    · rcases hA e he with he | he
      · cases e with
        | openSession q u s => exact hopens ⟨hact, q, u, he⟩
        | _ => first | exact he.elim | trivial
      · exact (hB e he).1

/-- A call opens no session, or one for a client that is not active. -/
theorem effects_opening (hfresh : w.freshPopen w.outcomes = true) :
    (∀ e, r.effects w e → NotOpening e) ∨
      ∃ p user, openedBy w p r = some user ∧ w.active p = false ∧ r.requester ≠ some p ∧
        ∀ e, r.effects w e → OpeningKind p user e := by
  have hleader : ∀ {c p : Pid}, w.leaderOf c = some p → c ≠ p := by
    intro c p h
    obtain ⟨_, -, -, hne, -⟩ := PlatformService.leaderOf_eq_some.mp h
    exact hne.symm
  cases r with
  | openSession user p =>
    cases hact : w.active p with
    | true =>
      refine .inl fun e he => ?_
      cases e with
      | openSession q u s => exact absurd (hact.symm.trans he.2.2) (by simp)
      | _ => trivial
    | false =>
      refine .inr ⟨p, user, if_pos rfl, hact, by simp [Call.requester], fun e he => ?_⟩
      cases e with
      | close q dir => exact he.1
      | openSession q u s => exact ⟨he.1, he.2.1⟩
      | _ => first | exact he.elim | trivial
  | startProfile user p name =>
    cases hact : w.active p with
    | true =>
      refine .inl fun e he => ?_
      cases e with
      | openSession q u s =>
        rcases he with he | he
        · exact absurd (hact.symm.trans he.2.2) (by simp)
        · exact he.elim
      | _ => trivial
    | false =>
      refine .inr ⟨p, user, if_pos rfl, hact, by simp [Call.requester], fun e he => ?_⟩
      cases e with
      | close q dir => exact (he.resolve_right id).1
      | openSession q u s => exact ⟨(he.resolve_right id).1, (he.resolve_right id).2.1⟩
      | _ => first | exact (he.elim id id).elim | trivial
  | startBatch c signals controls =>
    refine (onClient_opening (B := StartEffect w c signals controls) ?_ ?_).imp id ?_
    · rintro e ⟨-, ⟨-, he⟩ | he⟩
      · exact .inl he
      · exact .inr he
    · intro e he
      cases e with
      | startServer c' s v proc sig ctl =>
        refine ⟨trivial, fun p hp _ heq => ?_⟩
        exact (PlatformService.freshPopen_iff hfresh he.2.2.2.2).1 (heq ▸ hp)
      | startBroken c' s v proc sig ctl =>
        refine ⟨trivial, fun p hp _ heq => ?_⟩
        exact (PlatformService.freshPopen_iff hfresh he.2.2.2.2.1).1 (heq ▸ hp)
      | _ => exact he.elim
    · rintro ⟨p, user, hl, huser, hact, he⟩
      exact ⟨p, user, (if_pos hl).trans huser, hact, by simpa [Call.requester] using hleader hl, he⟩
  | writeControl c name domain domainIdx setting =>
    refine (onClient_opening (B := fun e => (∃ s, e = .access c s (.writeControl name)) ∨
      ∃ st, e = .setSettings st) ?_ ?_).imp id ?_
    · rintro e ⟨-, he⟩
      exact he
    · rintro e (⟨s, rfl⟩ | ⟨st, rfl⟩)
      · exact ⟨trivial, fun _ _ _ => trivial⟩
      · exact ⟨trivial, fun _ _ _ => trivial⟩
    · rintro ⟨p, user, hl, huser, hact, he⟩
      exact ⟨p, user, (if_pos hl).trans huser, hact, by simpa [Call.requester] using hleader hl, he⟩
  | restoreControl c =>
    refine (onClient_opening (B := fun e => ∃ st, e = .setSettings st) (fun e he => he) ?_).imp
      id ?_
    · rintro e ⟨st, rfl⟩
      exact ⟨trivial, fun _ _ _ => trivial⟩
    · rintro ⟨p, user, hl, huser, hact, he⟩
      exact ⟨p, user, (if_pos hl).trans huser, hact, by simp [Call.requester], he⟩
  | _ =>
    refine .inl fun e he => ?_
    cases e <;> first | trivial | simp [Call.effects, OnClient, CloseEffect, StopEffect] at he

/-- What a call does about the sessions. -/
structure Sessions (w w' : World) (r : Call) : Prop where
  session : ∀ p t, w'.sessions.lookup p = some t →
    (∃ s, w.sessions.lookup p = some s ∧ s.Keeps t) ∨
      ((∀ s, w.sessions.lookup p = some s → ¬ s.SameClient t) ∧
        ∃ user, openedBy w p r = some user ∧ w'.accessOf user p = some (t.signals, t.controls))
  requester : ∀ c, r.requester = some c → Going w w' c

theorem sessions_of_steps {w w' : World} (hfresh : w.freshPopen w.outcomes = true)
    (hsteps : Steps (r.effects w) w w') : Sessions w w' r := by
  have hrefl : ∀ p, Going w w p := fun p t ht => ⟨t, ht, .refl t⟩
  rcases effects_opening (r := r) hfresh with hnot | ⟨p, user, hopened, hact, hreq, hkind⟩
  · have hgoing : ∀ p, Going w w' p := by
      refine (hsteps.mono hnot).invariant (I := fun w' => ∀ p, Going w w' p) hrefl
        (fun _ _ _ h => h) fun u e h he hguard p => (h p).apply hguard fun u s heq => ?_
      rw [heq] at he
      exact he
    exact ⟨fun p t ht => .inl (hgoing p t ht), fun c _ => hgoing c⟩
  · have hopening := (hsteps.mono hkind).invariant (I := Opening p user w)
      ⟨fun pi hpi => hpi, fun t ht => .inl ⟨t, ht, .refl t⟩, fun q _ => hrefl q⟩
      (fun _ j b h => h.quiet j b)
      fun u e h he hguard => h.apply hact hguard he
    refine ⟨fun q t ht => ?_, fun c hc => hopening.others c fun heq => hreq (heq ▸ hc)⟩
    by_cases hq : q = p
    · subst hq
      refine (hopening.session t ht).imp id fun ⟨_, hnew, hlists⟩ => ⟨hnew, user, hopened, hlists⟩
    · exact .inl (hopening.others q hq t ht)

/-! ### Accesses -/

/-- What has been accessed since `w` is allowed by the session that the requester has in `w`. -/
def AccessedBy (w : World) (r : Call) (w' : World) : Prop :=
  ∃ new, w'.accesses = w.accesses ++ new ∧ ∀ x ∈ new, ∃ c s, r.requester = some c ∧
    w.sessions.lookup c = some s ∧ x.inLists (s.signals, s.controls)

theorem AccessedBy.append {w w' w'' : World} {c : Pid} {s : Session} {new : List Access}
    (h : AccessedBy w r w') (hreq : r.requester = some c) (hgoing : Going w w' c)
    (hs : w'.sessions.lookup c = some s) (haccesses : w''.accesses = w'.accesses ++ new)
    (hnew : ∀ x ∈ new, x.allowed s) : AccessedBy w r w'' := by
  obtain ⟨old, hold, hallowed⟩ := h
  obtain ⟨s₀, hs₀, hkeeps⟩ := hgoing s hs
  refine ⟨old ++ new, by rw [haccesses, hold, List.append_assoc], fun x hx => ?_⟩
  rcases List.mem_append.mp hx with hx | hx
  · exact hallowed x hx
  · refine ⟨c, s₀, hreq, hs₀, ?_⟩
    rw [← hkeeps.signals, ← hkeeps.controls]
    exact allowed_inLists (hnew x hx)

/-- The accesses of a batch server are those in its configuration. -/
theorem allowed_batch {s : Session} {signals controls : List Request}
    (hsignals : Granted signals s.signals) (hcontrols : Granted controls s.controls) :
    ∀ x ∈ batchAccesses signals controls, x.allowed s := by
  intro x hx
  rcases List.mem_append.mp hx with hx | hx
  · obtain ⟨r, hr, rfl⟩ := List.mem_map.mp hx
    exact hsignals r hr
  · obtain ⟨r, hr, rfl⟩ := List.mem_map.mp hx
    exact hcontrols r hr

/-- The client for which an effect accesses the platform. -/
def AccessFor (r : Call) : Effect → Prop
  | .access c _ _ => r.requester = some c
  | .startServer c _ _ _ _ _ => r.requester = some c
  | .startBroken c _ _ _ _ _ => r.requester = some c
  | _ => True

theorem effects_accessFor {w : World} {e : Effect} (he : r.effects w e) : AccessFor r e := by
  cases r with
  | startBatch c signals controls =>
    rcases he with ⟨-, rfl | ⟨dir, rfl⟩⟩ | ⟨-, -, ⟨-, he⟩ | he⟩
    · trivial
    · trivial
    · cases e <;> first | exact he.elim | trivial
    · cases e with
      | startServer c' s v proc sig ctl => exact congrArg some he.1.symm
      | startBroken c' s v proc sig ctl => exact congrArg some he.1.symm
      | _ => exact he.elim
  | writeControl c name domain domainIdx setting =>
    rcases he with ⟨-, rfl | ⟨dir, rfl⟩⟩ | ⟨-, -, he | ⟨s, rfl⟩ | ⟨st, rfl⟩⟩
    · trivial
    · trivial
    · cases e <;> first | exact he.elim | trivial
    · exact rfl
    · trivial
  | readSignal c name domain domainIdx =>
    rcases he with ⟨-, rfl | ⟨dir, rfl⟩⟩ | ⟨-, s, rfl⟩
    · trivial
    · trivial
    · exact rfl
  | _ =>
    cases e <;> first | trivial | simp [Call.effects, OnClient, OpenEffect, WriteEffect,
      CloseEffect, StopEffect, ProfileEffect] at he

theorem AccessedBy.apply {w w' : World} {e : Effect} (h : AccessedBy w r w')
    (hgoing : ∀ c, r.requester = some c → Going w w' c) (hguard : Effect.guard w' e)
    (he : AccessFor r e) : AccessedBy w r (Effect.apply w' e) := by
  cases e with
  | access c s x =>
    refine h.append he (hgoing c he) hguard.1 rfl fun y hy => ?_
    rw [List.mem_singleton.mp hy]
    exact hguard.2.2
  | startServer c s v proc signals controls =>
    exact h.append he (hgoing c he) hguard.1 rfl
      (allowed_batch hguard.2.2.2.2.2.1 hguard.2.2.2.2.2.2.1)
  | startBroken c s v proc signals controls =>
    exact h.append he (hgoing c he) hguard.1 rfl
      (allowed_batch hguard.2.2.2.2.1 hguard.2.2.2.2.2)
  | _ => exact h

theorem accessedBy_of_steps {w w' : World} (hfresh : w.freshPopen w.outcomes = true)
    (hsteps : Steps (r.effects w) w w') : AccessedBy w r w' := by
  induction hsteps with
  | refl => exact ⟨[], by simp, fun x hx => by cases hx⟩
  | tail hsteps hst ih =>
    obtain ⟨e, j, b, hA, hguard, -, rfl⟩ := hst
    have hsessions := sessions_of_steps hfresh hsteps
    rcases hA with he | rfl
    · exact ih.apply hsessions.requester hguard (effects_accessFor he)
    · exact ih

end Calls

/-! ### All runs -/

section Runs

variable {t : Session}

theorem regrant_going {a : Action} (h : Granting w g)
    (hs : ∃ s, w.sessions.lookup p = some s ∧ s.Keeps t) (ht : w'.sessions.lookup p = some t) :
    regrant w a w' g p = some (t.signals, t.controls) := by
  obtain ⟨s, hs, hkeeps⟩ := hs
  unfold regrant
  rw [if_pos (goesOn_iff.mpr ⟨s, t, hs, ht, hkeeps.client⟩), h p s hs, hkeeps.signals,
    hkeeps.controls]

theorem regrant_opened {o : Outcomes} {r : Call} {user : String}
    (hnew : ∀ s, w.sessions.lookup p = some s → ¬ s.SameClient t)
    (ht : w'.sessions.lookup p = some t) (hopened : openedBy w p r = some user)
    (hlists : w'.accessOf user p = some (t.signals, t.controls)) :
    regrant w (.call o r) w' g p = some (t.signals, t.controls) := by
  have hnot : ¬ goesOn w w' p = true := by
    rw [goesOn_iff]
    rintro ⟨s, t', hs, ht', hsame⟩
    cases ht.symm.trans ht'
    exact hnew s hs hsame
  unfold regrant
  rw [if_neg hnot, if_pos ((Dict.mem_iff _ _).mpr ⟨t, ht⟩)]
  simp only [hopened, Option.bind_some, hlists]

/-- One step keeps the grants up to date. -/
theorem Granting.step {a : Action} (hkept : Kept w) (h : Granting w g)
    (hst : service.step w a w') : Granting w' (regrant w a w' g) := by
  intro p t ht
  have haround : Around w w' → ∃ s, w.sessions.lookup p = some s ∧ s.Keeps t := by
    intro hw
    obtain ⟨procs, servers, settings, users, now, rfl⟩ := hw.rest
    exact ⟨t, ht, .refl t⟩
  cases a with
  | call o r =>
    obtain ⟨-, hfresh, -, hwithin⟩ := call_spec hkept hst
    rcases (sessions_of_steps (w := w.withOutcomes o) hfresh hwithin.steps).session p t ht with
      hgoing | ⟨hnew, user, hopened, hlists⟩
    · exact regrant_going h hgoing ht
    · refine regrant_opened hnew ht ?_ hlists
      rw [← hopened]
      cases r <;> rfl
  | restart o => exact regrant_going h (restart_keeps hkept hst ht) ht
  | _ => exact regrant_going h (haround (around_spec rfl hst)) ht

theorem accesses_step {a : Action} (hkept : Kept w) (hst : service.step w a w') :
    (∃ o r, a = .call o r ∧ AccessedBy w r w') ∨ w'.accesses = w.accesses := by
  have haround : Around w w' → w'.accesses = w.accesses := by
    intro hw
    obtain ⟨procs, servers, settings, users, now, rfl⟩ := hw.rest
    rfl
  cases a with
  | call o r =>
    obtain ⟨-, hfresh, -, hwithin⟩ := call_spec hkept hst
    exact .inl ⟨o, r, rfl, accessedBy_of_steps (w := w.withOutcomes o) hfresh hwithin.steps⟩
  | restart o =>
    refine .inr ?_
    obtain ⟨w₁, w₂, hr, hcases⟩ := restart_spec hkept hst
    have hsteps : Steps (OrDrop (RestartEffect w₁)) w₁ w₂ ∧ w'.accesses = w₂.accesses := by
      rcases hcases with ⟨rfl, hwithin, -⟩ | ⟨rfl, -, hwithin⟩
      · exact ⟨hwithin.steps.mono fun e => .inl, rfl⟩
      · exact ⟨hwithin.steps, rfl⟩
    rw [hsteps.2]
    refine hsteps.1.invariant (I := fun w' => w'.accesses = w.accesses) ?_ (fun _ _ _ h => h) ?_
    · obtain ⟨_, _, _, _, -, rfl⟩ := hr.rest
      rfl
    · rintro u e h (he | ⟨q, lock, rfl⟩) -
      · cases e <;> first | exact he.elim | exact h
      · exact h
  | _ => exact .inr (haround (around_spec rfl hst))

end Runs

/-- The child, which may access everything, has opened a session. -/
def childGranted : World := leaderAndChild.afterCall (.succeed none) (.openSession "user" 11)

end Geopm
