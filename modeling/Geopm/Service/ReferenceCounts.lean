import Geopm.Service.AccessControl

/-!
# The reference count of a session

Each `open_session` and each `start_profile` of a client is to be matched by a `close_session` or a
`stop_profile`; the session is open as long as one of them is not.

* `Tally` and `tally` : the opens and closes of a client since its session was last absent, counted
  from the requests alone;
* `Counted` : the session is open, with the right reference count, exactly while there are more
  opens than closes;
* `counted_of_reachable` : this holds in every run in which each `start_profile` comes when the
  profile can begin, and such a request goes wrong whenever it cannot.

`start_profile` opens the session before it knows whether the profile can begin, and does not close
it again when it cannot.
-/

namespace Geopm

open Prog PlatformService
open ActiveSessions (active_iff wp_isClientActive_of_active getControls wp_getMember getSignals wp_getClients wp_setMember wp_isClientActive_of_notMem wp_addClient decrementReferenceCount)
open Option
open AList

/-! ### What is counted -/

/-- The effective IDs and the creation time by which a process is known. -/
def Proc.identity (pi : Proc) : ℕ × ℕ × ℕ := (pi.uid, pi.gid, pi.createTime)

/-- The identity of the process that opened a session. -/
def Session.identity (s : Session) : ℕ × ℕ × ℕ := (s.clientUid, s.clientGid, s.createTime)

/-- The process `p` is alive, and has the identity `i`. -/
def World.aliveAs (w : World) (p : Pid) (i : ℕ × ℕ × ℕ) : Prop :=
  ∃ pi, w.procs.lookup p = some pi ∧ pi.identity = i

/-- The reference count stored for `p`, if it has a session. -/
def World.countOf (w : World) (p : Pid) : Option ℤ :=
  (w.sessions.lookup p).map Session.referenceCount

/-- How often a client has opened and closed its session since it was last absent. -/
structure Tally where
  opens : ℕ
  closes : ℕ
deriving DecidableEq

/-- The tally at the beginning of an action: an absent session starts anew. -/
def Tally.renew (p : Pid) (w : World) (n : Tally) : Tally := if p ∈ w.sessions then n else ⟨0, 0⟩

namespace Call

/-- The call opens the session of `p` when it returns. -/
def opens (p : Pid) : Call → Bool
  | .openSession _ q => q == p
  | .startProfile _ q _ => q == p
  | _ => false

/-- The call closes the session of `p` once when it returns. -/
def closes (p : Pid) : Call → Bool
  | .closeSession q _ => q == p
  | .stopProfile q _ => q == p
  | _ => false

/-- The call closes the session of `p` whatever its reference count is. -/
def closesOutright (p : Pid) : Call → Bool
  | .closeSessionAdmin q _ => q == p
  | .closeAllSessions => true
  | _ => false

/-- The call returns. -/
def returns (r : Call) (w : World) (o : Outcomes) : Bool := Prog.returns r.run (w.withOutcomes o)

end Call

/-- The tally after an action; a session that has been closed outright is absent. -/
def tally (p : Pid) (w : World) (a : Action) (w' : World) (n : Tally) : Tally :=
  let n := n.renew p w
  match a with
  | .call o r =>
    if r.closesOutright p then n.renew p w'
    else
      ⟨n.opens + (if r.opens p && r.returns w o then 1 else 0),
        n.closes + (if r.closes p && r.returns w o then 1 else 0)⟩
  | _ => n

/-- The session of `p` is open exactly while there are more opens than closes, and its reference
count is their difference. -/
structure Counted (p : Pid) (w : World) (n : Tally) : Prop where
  isOpen : p ∈ w.sessions ↔ n.closes < n.opens
  count : ∀ s, w.sessions.lookup p = some s → s.referenceCount = (n.opens : ℤ) - n.closes

/-- The call asks for write mode on behalf of another process whose session leader is `p`. -/
def WritesFor (w : World) (p : Pid) : Call → Prop
  | .writeControl c name _ _ _ =>
      w.active c = true ∧ w.allowsControl c name ∧ w.leaderOf c = some p
  | .restoreControl c => w.active c = true ∧ w.leaderOf c = some p
  | .startBatch c signals controls =>
      w.active c = true ∧ w.allowsBatch c signals controls ∧ controls ≠ [] ∧
        w.leaderOf c = some p
  | _ => False

/-- The lock is free when write mode is asked for: the service opens a session for `p`, and makes
it the writer. -/
def Promotes (w : World) (p : Pid) : Action → Prop
  | .call _ r => w.controlLock = none ∧ WritesFor w p r
  | _ => False

/-- The service goes on, and `p` is not promoted. -/
def Undisturbed (w : World) (p : Pid) : Action → Prop
  | .restart _ => False
  | a => ¬ Promotes w p a

/-- The profile of `p` can begin: it has none yet, and the names of its files are free.  Without
the right to a session, the request fails before it changes anything. -/
def Profilable (w : World) (user : String) (p : Pid) : Prop :=
  (p ∉ w.sessions ∧ w.accessOf user p = none) ∨
    (w.profileOf p = none ∧ ∀ pi, w.procs.lookup p = some pi →
      shmemPathProf "record-log" p pi.uid ∉ w.shmem ∧
        (w.profiles.keys = [] → shmemPathProf "status" p pi.uid ∉ w.shmem))

/-- A `start_profile` of `p` comes when the profile can begin. -/
def Starts (w : World) (p : Pid) : Action → Prop
  | .call _ (.startProfile user q _) => q = p → Profilable w user p
  | _ => True

/-- The action is a `start_profile` of `p` that raises. -/
def FailsToStart (w : World) (p : Pid) : Action → Prop
  | .call o (.startProfile user q name) =>
      q = p ∧ (Call.startProfile user q name).returns w o = false
  | _ => False

/-- What is to hold after an action: the count is right, and a `start_profile` that raises has left
all sessions as they were. -/
structure CountsRight (p : Pid) (w : World) (n : Tally) (a : Action) (w' : World) : Prop where
  counted : Counted p w' (tally p w a w' n)
  unchanged : FailsToStart w p a → w'.sessions = w.sessions

/-! ### Counts -/

variable {w w' : World} {n : Tally}

section Counts

variable {p : Pid}

theorem countOf_eq_none : w.countOf p = none ↔ p ∉ w.sessions := by
  rw [World.countOf, map_eq_none_iff, Dict.notMem_iff]

theorem countOf_of_lookup {s : Session} (hs : w.sessions.lookup p = some s) :
    w.countOf p = some s.referenceCount := by
  rw [World.countOf, hs, map_some]

/-- The two parts of `Counted` as one equation. -/
theorem counted_iff : Counted p w n ↔
    w.countOf p = if n.closes < n.opens then some ((n.opens : ℤ) - n.closes) else none := by
  constructor
  · rintro ⟨hopen, hcount⟩
    split_ifs with hn
    · obtain ⟨s, hs⟩ := (Dict.mem_iff _ _).mp (hopen.mpr hn)
      rw [countOf_of_lookup hs, hcount s hs]
    · exact countOf_eq_none.mpr fun hp => hn (hopen.mp hp)
  · intro h
    refine ⟨⟨fun hp => ?_, fun hn => ?_⟩, fun s hs => ?_⟩
    · by_contra hn
      rw [if_neg hn] at h
      exact countOf_eq_none.mp h hp
    · by_contra hp
      rw [if_pos hn, countOf_eq_none.mpr hp] at h
      cases h
    · rw [countOf_of_lookup hs] at h
      split_ifs at h
      exact Option.some.inj h

theorem Counted.renew (h : Counted p w n) : Counted p w (n.renew p w) := by
  unfold Tally.renew
  split_ifs with hp
  · exact h
  · rw [counted_iff, countOf_eq_none.mpr hp]
    rfl

theorem Counted.of_countOf (h : Counted p w n) (heq : w'.countOf p = w.countOf p) :
    Counted p w' n := by
  rw [counted_iff] at *
  rw [heq, h]

theorem Tally.renew_of_notMem (hp : p ∉ w.sessions) : n.renew p w = ⟨0, 0⟩ := if_neg hp

theorem Counted.opened (h : Counted p w n)
    (hopen : w'.countOf p = some ((w.countOf p).getD 0 + 1)) :
    Counted p w' ⟨(n.renew p w).opens + 1, (n.renew p w).closes⟩ := by
  have hn := counted_iff.mp h.renew
  rw [counted_iff, hopen, hn]
  by_cases hlt : (n.renew p w).closes < (n.renew p w).opens
  · rw [if_pos hlt, if_pos (by dsimp only; omega), getD_some]
    exact congrArg some (by push_cast; omega)
  · -- a session that is not open has no opens and no closes
    have hp : p ∉ w.sessions := fun hp => hlt (h.renew.isOpen.mp hp)
    rw [if_neg hlt, Tally.renew_of_notMem hp]
    simp

theorem Counted.closed (h : Counted p w n)
    (hclose : w'.countOf p = (w.countOf p).bind fun k => if k ≤ 1 then none else some (k - 1)) :
    Counted p w' ⟨(n.renew p w).opens, (n.renew p w).closes + 1⟩ := by
  have hn := counted_iff.mp h.renew
  rw [counted_iff, hclose, hn]
  by_cases hlt : (n.renew p w).closes < (n.renew p w).opens
  · rw [if_pos hlt, bind_some]
    dsimp only
    split_ifs with hone hmore hmore
    · omega
    · rfl
    · exact congrArg some (by push_cast; omega)
    · omega
  · rw [if_neg hlt, if_neg (by dsimp only; omega), bind_none]

end Counts

/-! ### Effects -/

/-- The effect leaves the reference count of `p` alone. -/
def KeepsCount (p : Pid) : Effect → Prop
  | .close q _ => q ≠ p
  | .drop q _ => q ≠ p
  | .openSession q _ _ => q ≠ p
  | .count q _ _ => q ≠ p
  | _ => True

/-- A batch server is not given the PID `p`. -/
def Spares (p : Pid) : Effect → Prop
  | .startServer _ _ v _ _ _ => v ≠ p
  | .startBroken _ _ v _ _ _ => v ≠ p
  | _ => True

/-- The process `p`, while it is there, and its session have the identity `i`. -/
structure Identified (p : Pid) (i : ℕ × ℕ × ℕ) (w : World) : Prop where
  session : ∀ s, w.sessions.lookup p = some s → s.identity = i
  proc : ∀ pi, w.procs.lookup p = some pi → pi.identity = i

variable {e : Effect} {i : ℕ × ℕ × ℕ}

section Effects

variable {p : Pid}

theorem countOf_apply (hguard : Effect.guard w e) (he : KeepsCount p e) :
    (Effect.apply w e).countOf p = w.countOf p := by
  -- one record changes, of another client or in another member
  have hinsert : ∀ {q : Pid} {s u : Session}, w.sessions.lookup q = some s →
      u.referenceCount = s.referenceCount →
      ((w.sessions.insert q u).lookup p).map Session.referenceCount = w.countOf p := by
    intro q s u hs hu
    rw [Dict.lookup_insert_eq]
    split_ifs with hq
    · rw [hq, countOf_of_lookup hs, map_some, hu]
    · rfl
  have hother : ∀ {q : Pid} {u : Session}, q ≠ p →
      ((w.sessions.insert q u).lookup p).map Session.referenceCount = w.countOf p := by
    intro q u hq
    rw [lookup_insert_ne hq.symm]
    rfl
  have herase : ∀ {q : Pid}, q ≠ p →
      ((w.sessions.erase q).lookup p).map Session.referenceCount = w.countOf p := by
    intro q hq
    rw [lookup_erase_ne hq.symm]
    rfl
  cases e with
  | close q dir => exact herase he
  | drop q lock => exact herase he
  | openSession q user s => exact hother he
  | count q s k => exact hother he
  | watch q s id => exact hinsert hguard rfl
  | startServer c s v proc signals controls => exact hinsert hguard.1 rfl
  | stopServer c s v => exact hinsert hguard.1 rfl
  | forgetServer c s v => exact hinsert hguard.1 rfl
  | beginProfile q s uid name => exact hinsert hguard.1 rfl
  | endProfile q s name => exact hinsert hguard.1 rfl
  | _ => rfl

/-- Effects that leave the count alone, or close a session that is not there. -/
theorem countOf_steps {A : Effect → Prop} (h : Steps A w w')
    (hA : ∀ e, A e → KeepsCount p e ∨ (p ∉ w.sessions ∧ ∃ dir, e = .close p dir)) :
    w'.countOf p = w.countOf p := by
  refine h.invariant (I := fun u => u.countOf p = w.countOf p) rfl (fun _ _ _ h => h) ?_
  intro u e hu he hguard
  rcases hA e he with hkeeps | ⟨hp, dir, rfl⟩
  · rw [countOf_apply hguard hkeeps, hu]
  · rw [countOf_eq_none.mpr hp, countOf_eq_none]
    exact fun hmem => (mem_erase.mp hmem).1 rfl

theorem Session.Keeps.identity {s t : Session} (h : s.Keeps t) : t.identity = s.identity := by
  obtain ⟨huid, hgid, htime⟩ := h.client
  simp only [Session.identity, huid, hgid, htime]

theorem Identified.apply (h : Identified p i w) (hguard : Effect.guard w e) (he : Spares p e) :
    Identified p i (Effect.apply w e) := by
  refine ⟨fun s hs => ?_, fun pi hpi => h.proc pi ?_⟩
  · rcases lookup_apply hguard hs with ⟨s₀, hs₀, hkeeps⟩ | ⟨user, rfl⟩
    · exact hkeeps.identity.trans (h.session s₀ hs₀)
    · obtain ⟨-, pi, _, _, _, hpi, rfl, -⟩ := hguard
      exact h.proc pi hpi
  · have hinsert : ∀ {v : Pid} {proc : Proc}, v ≠ p →
        (w.procs.insert v proc).lookup p = some pi → w.procs.lookup p = some pi := by
      intro v proc hv hpi
      rwa [lookup_insert_ne hv.symm] at hpi
    cases e with
    | close q dir => exact (lookup_without.mp hpi).2
    | drop q lock => exact (lookup_without.mp hpi).2
    | startServer c s v proc signals controls => exact hinsert he hpi
    | startBroken c s v proc signals controls => exact hinsert he hpi
    | stopServer c s v =>
      change (w.stopped v).procs.lookup p = some pi at hpi
      rw [World.stopped_procs] at hpi
      split_ifs at hpi
      · rw [Dict.lookup_erase_eq] at hpi
        split_ifs at hpi
        exact hpi
      · exact hpi
    | _ => exact hpi

theorem Identified.steps {A : Effect → Prop} (h : Identified p i w) (hsteps : Steps A w w')
    (hA : ∀ e, A e → Spares p e) : Identified p i w' :=
  hsteps.invariant h (fun _ _ _ h => ⟨h.session, h.proc⟩)
    fun _ _ h he hguard => h.apply hguard (hA _ he)

theorem Identified.active (h : Identified p i w) (halive : w.aliveAs p i) (hp : p ∈ w.sessions) :
    w.active p = true := by
  obtain ⟨s, hs⟩ := (Dict.mem_iff _ _).mp hp
  obtain ⟨pi, hpi, hi⟩ := halive
  refine active_iff.mpr ⟨s, pi, hs, hpi, ActiveSessions.sameProcess_iff.mpr ?_⟩
  have hsame := (h.session s hs).trans hi.symm
  simp only [Session.identity, Proc.identity, Prod.mk.injEq] at hsame
  exact hsame

end Effects

/-! ### Requests that do not count -/

section Others

variable {p c : Pid}

theorem wp_checkClientActive_of_active {Q : Bool → World → Prop} {E : PyErr → World → Prop}
    {name : String} (hact : w.active c = true) (hQ : Q true w) :
    wp (checkClientActive c name) Q E w := by
  rw [checkClientActive, wp_bind, isClientActive, wp_tryCatch]
  exact (wp_isClientActive_of_active hact).mpr hQ

theorem wp_writeMode_locked {Q : Unit → World → Prop} {E : PyErr → World → Prop}
    (hact : w.active c = true) (hfile : w.isFileActive = false) (hlock : w.controlLock ≠ none)
    (hQ : Q () (w.setActive false)) (hE : ∀ e, E e (w.setActive false)) :
    wp (writeMode c) Q E w := by
  obtain ⟨s, pi, -, hpi, -⟩ := active_iff.mp hact
  obtain ⟨owner, howner⟩ := ne_none_iff_exists'.mp hlock
  rw [writeMode, wp_bind, wp_writePid hpi]
  refine WriteLock.wp_withLock hfile ?_
  rw [wp_bind, WriteLock.wp_tryLock_none]
  simp only [World.lockFile, World.setActive_controlLock, howner, map_some, wp_ite,
    wp_pure, wp_throw]
  exact ⟨fun _ => ⟨rfl, hQ⟩, fun _ => ⟨rfl, hE _⟩⟩

theorem writeControl_locked {name : String} {domain domainIdx : ℤ} {setting : ℚ}
    (hact : w.active c = true) (hfile : w.isFileActive = false) (hlock : w.controlLock ≠ none) :
    wp (writeControl c name domain domainIdx setting) (fun _ w' => w'.countOf p = w.countOf p)
      (fun _ w' => w'.countOf p = w.countOf p) w := by
  obtain ⟨s, pi, hs, -, -⟩ := active_iff.mp hact
  rw [writeControl, wp_bind]
  refine wp_checkClientActive_of_active hact ?_
  rw [if_pos rfl, wp_bind, getControls, wp_getMember hs, wp_ite]
  refine ⟨fun _ => ?_, fun _ => rfl⟩
  rw [wp_bind]
  refine wp_writeMode_locked hact hfile hlock ?_ fun _ => rfl
  rw [wp_bind, Pio.writeControl, wp_bind, wp_modify, wp_bind, wp_get, wp_ite]
  exact ⟨fun _ => rfl, fun _ => rfl⟩

theorem restoreControl_locked (hact : w.active c = true) (hfile : w.isFileActive = false)
    (hlock : w.controlLock ≠ none) :
    wp (restoreControl c) (fun _ w' => w'.countOf p = w.countOf p)
      (fun _ w' => w'.countOf p = w.countOf p) w := by
  rw [restoreControl, wp_bind]
  refine wp_checkClientActive_of_active hact ?_
  rw [if_pos rfl, wp_bind]
  refine wp_writeMode_locked hact hfile hlock ?_ fun _ => rfl
  cases hsave : (w.setActive false).saveFiles with
  | none =>
    rw [Pio.restoreControlDir, wp_bind, wp_get, hsave]
    rfl
  | some saved =>
    exact wp_restoreControlDir (by rw [hsave]; simp) (fun _ => rfl) fun _ _ => rfl

theorem startBatch_locked {signals controls : List Request} (hw : Kept w)
    (hfresh : w.freshPopen w.outcomes = true) (hact : w.active c = true)
    (hlock : w.controlLock ≠ none) :
    wp (startBatch c signals controls) (fun _ w' => w'.countOf p = w.countOf p)
      (fun _ w' => w'.countOf p = w.countOf p) w := by
  obtain ⟨s, pi, hs, -, -⟩ := active_iff.mp hact
  have hrefl : Within (KeepsCount p) w false w := .refl hw.isFileActive hw.sane
  have hkeeps : ∀ {w'}, Within (KeepsCount p) w false w' → w'.countOf p = w.countOf p :=
    fun hw' => countOf_steps hw'.steps fun _ he => .inl he
  rw [startBatch, wp_bind]
  refine wp_checkClientActive_of_active hact ?_
  rw [if_pos rfl, wp_bind, getSignals, wp_getMember hs, wp_bind,
    getControls, wp_getMember hs, wp_bind]
  refine wp_checkRequested (fun hsig => ?_) fun _ => rfl
  rw [wp_bind]
  refine wp_checkRequested (fun hctl => ?_) fun _ => rfl
  -- the server is started in a state with the same sessions
  have hstart := fun {w'} (hw' : Within (KeepsCount p) w false w') hs' hact' hfresh' hlock' =>
    wp_mono (limited_startServer (w := w') (c := c) (s := s) hw' hs' hact' hfresh'
      (fun r hr => mem_pySorted.mp (hsig r hr)) (fun r hr => mem_pySorted.mp (hctl r hr))
      (fun _ => hlock') fun e he => by cases e <;> first | exact he.elim | trivial)
      (fun _ _ => hkeeps) fun _ _ => hkeeps
  rw [wp_bind, wp_ite]
  refine ⟨fun _ => ?_, fun _ => ?_⟩
  · rw [wp_pure]
    exact hstart hrefl hs hact hfresh hlock
  · refine wp_writeMode_locked hact hw.isFileActive hlock ?_ fun _ => rfl
    exact hstart (hrefl.setActive false) hs hact hfresh hlock

theorem writeEffect_keepsCount (h : w.leaderOf c ≠ some p) (he : WriteEffect w c e) :
    KeepsCount p e := by
  cases e with
  | drop q lock => exact fun hq => h (hq ▸ he.1)
  | openSession q u s => exact fun hq => h (hq ▸ he.1)
  | count q s k => exact fun hq => h (hq ▸ he)
  | _ => first | exact he.elim | trivial

/-- What a method does for a client that is closed unless it is active. -/
theorem onClient_keepsCount {A : Effect → Prop} (hown : p ∈ w.sessions → w.active p = true)
    (hA : w.active c = true → ∀ e, A e → KeepsCount p e) (he : OnClient w c A e) :
    KeepsCount p e ∨ (p ∉ w.sessions ∧ ∃ dir, e = .close p dir) := by
  rcases he with ⟨hinactive, rfl | ⟨dir, rfl⟩⟩ | ⟨hact, he⟩
  · exact .inl trivial
  · by_cases hc : c = p
    · subst hc
      refine .inr ⟨fun hp => ?_, dir, rfl⟩
      rw [hown hp] at hinactive
      cases hinactive
    · exact .inl hc
  · exact .inl (hA hact e he)

/-- The requests that do not count, and are not made on behalf of `p`, leave the count alone. -/
theorem effects_keepsCount {r : Call} (hown : p ∈ w.sessions → w.active p = true)
    (halive : p ∈ w.procs) (hopens : r.opens p = false) (hcloses : r.closes p = false)
    (hout : r.closesOutright p = false) (hall : r ≠ .closeInactiveClients)
    (hwrites : ¬ WritesFor w p r) (he : r.effects w e) :
    KeepsCount p e ∨ (p ∉ w.sessions ∧ ∃ dir, e = .close p dir) := by
  have hopen : ∀ {user q}, q ≠ p → OpenEffect w user q e → KeepsCount p e := by
    intro user q hq he
    cases e with
    | close q' dir => exact fun h => hq (he.1.symm.trans h)
    | openSession q' u s => exact fun h => hq (he.1.symm.trans h)
    | count q' s k => exact fun h => hq (he.1.symm.trans h)
    | _ => first | exact he.elim | trivial
  have hclose : ∀ {q}, q ≠ p → ∀ e, CloseEffect w q e → KeepsCount p e := by
    intro q hq e he
    cases e with
    | count q' s k => exact fun h => hq (Eq.trans (Eq.symm he) h)
    | close q' dir => exact fun h => hq (he.1.symm.trans h)
    | _ => exact he.elim
  cases r with
  | setGroupAccess | setGroupAccessSignals | setGroupAccessControls =>
    obtain ⟨config, rfl⟩ := he
    exact .inl trivial
  | openSession user q => exact .inl (hopen (by simpa [Call.opens] using hopens) he)
  | startProfile user q name =>
    rcases he with he | he
    · exact .inl (hopen (by simpa [Call.opens] using hopens) he)
    · exact .inl (by cases e <;> first | exact he.elim | trivial)
  | closeSession q request =>
    exact onClient_keepsCount hown (fun _ => hclose (by simpa [Call.closes] using hcloses)) he.2
  | closeSessionAdmin q request =>
    obtain ⟨-, dir, rfl⟩ := he
    have hq : q ≠ p := by simpa [Call.closesOutright] using hout
    exact .inl hq
  | closeAllSessions => cases hout
  | stopProfile q names =>
    rw [Call.effects] at he
    refine onClient_keepsCount hown (fun _ e he => ?_) he
    rcases he with ⟨s, name, rfl⟩ | he
    · trivial
    · exact hclose (by simpa [Call.closes] using hcloses) e he
  | startBatch c signals controls =>
    rw [Call.effects] at he
    refine onClient_keepsCount hown (fun hact e he => ?_) he
    obtain ⟨hallows, ⟨hne, he⟩ | he⟩ := he
    · exact writeEffect_keepsCount (fun hl => hwrites ⟨hact, hallows, hne, hl⟩) he
    · cases e <;> first | exact he.elim | trivial
  | stopBatch c v =>
    refine onClient_keepsCount hown (fun _ e he => ?_) he
    cases e <;> first | exact he.elim | trivial
  | readSignal c name domain domainIdx =>
    rw [Call.effects] at he
    refine onClient_keepsCount hown (fun _ e he => ?_) he
    obtain ⟨s, rfl⟩ := he
    trivial
  | writeControl c name domain domainIdx setting =>
    rw [Call.effects] at he
    refine onClient_keepsCount hown (fun hact e he => ?_) he
    obtain ⟨hallows, he | ⟨s, rfl⟩ | ⟨st, rfl⟩⟩ := he
    · exact writeEffect_keepsCount (fun hl => hwrites ⟨hact, hallows, hl⟩) he
    · trivial
    · trivial
  | restoreControl c =>
    rw [Call.effects] at he
    refine onClient_keepsCount hown (fun hact e he => ?_) he
    obtain he | ⟨st, rfl⟩ := he
    · exact writeEffect_keepsCount (fun hl => hwrites ⟨hact, hl⟩) he
    · trivial
  | getProfilePids arg name =>
    obtain ⟨q, -, -, rfl⟩ := he
    exact .inl trivial
  | popProfileRegionNames arg name =>
    obtain ⟨-, rfl⟩ := he
    exact .inl trivial
  | checkClient q =>
    obtain ⟨-, hdead, dir, rfl⟩ := he
    exact .inl fun hq => hdead (hq ▸ halive)
  | closeInactiveClients => exact absurd rfl hall
  | _ => exact he.elim

theorem effects_spares {r : Call} (hfresh : w.freshPopen w.outcomes = true) (halive : p ∈ w.procs)
    (he : r.effects w e) : Spares p e := by
  cases r with
  | startBatch c signals controls =>
    rcases he with ⟨-, rfl | ⟨dir, rfl⟩⟩ | ⟨-, -, ⟨-, he⟩ | he⟩
    · trivial
    · trivial
    · cases e <;> first | exact he.elim | trivial
    · cases e with
      | startServer c' s v proc signals controls =>
        exact fun hv => (freshPopen_iff hfresh he.2.2.2.2).1 (hv ▸ halive)
      | startBroken c' s v proc signals controls =>
        exact fun hv => (freshPopen_iff hfresh he.2.2.2.2.1).1 (hv ▸ halive)
      | _ => exact he.elim
  | _ =>
    cases e <;> first | trivial | simp [Call.effects, OnClient, OpenEffect, CloseEffect,
      StopEffect, ProfileEffect, WriteEffect] at he

/-- As long as the process `p` is there, its session stays as it is. -/
def Untouched (p : Pid) (w w' : World) : Prop :=
  ∀ pi, w'.procs.lookup p = some pi →
    w.procs.lookup p = some pi ∧ w'.sessions.lookup p = w.sessions.lookup p

theorem Untouched.trans {w'' : World} (h : Untouched p w w') (h' : Untouched p w' w'') :
    Untouched p w w'' := by
  intro pi hpi
  obtain ⟨hpi', hs'⟩ := h' pi hpi
  obtain ⟨hpi'', hs⟩ := h pi hpi'
  exact ⟨hpi'', hs'.trans hs⟩

/-- What checking the client `q` does, unless `q` is the process `p` with its session. -/
theorem untouched_steps {q : Pid} (hq : q = p → p ∉ w.sessions ∨ p ∉ w.procs)
    (h : Steps (fun e => e = .discard q ∨ ∃ dir, e = .close q dir) w w') :
    Untouched p w w' := by
  refine (h.invariant (I := fun u => Untouched p w u ∧ (q = p → p ∉ u.sessions ∨ p ∉ u.procs))
    ⟨fun pi hpi => ⟨hpi, rfl⟩, hq⟩ (fun _ _ _ h => h) ?_).1
  rintro u e ⟨hu, hq⟩ (rfl | ⟨dir, rfl⟩) -
  · exact ⟨hu, hq⟩
  · refine ⟨hu.trans fun pi hpi => ?_, fun _ => .inl fun hp => ?_⟩
    · have hpi' : u.procs.lookup p = some pi := (lookup_without.mp hpi).2
      refine ⟨hpi', ?_⟩
      change (u.sessions.erase q).lookup p = u.sessions.lookup p
      rw [Dict.lookup_erase_eq]
      split_ifs with hpq
      · -- the session that is closed was not there
        have hnot := (hq hpq.symm).resolve_right fun h => h ((Dict.mem_iff _ _).mpr ⟨pi, hpi'⟩)
        exact ((Dict.notMem_iff _ _).mp hnot).symm
      · rfl
    · obtain ⟨hne, -⟩ := mem_erase.mp hp
      exact absurd ‹q = p›.symm hne

/-- `close_inactive_clients` does not close the session of a living client. -/
theorem closeInactiveClients_untouched (hw : Kept w) (hid : Identified p i w) :
    wp closeInactiveClients (fun _ => Untouched p w) (fun _ => Untouched p w) w := by
  rw [closeInactiveClients, wp_bind, wp_getClients]
  refine wp_mono_ok (wp_forM (I := fun u => Sane u ∧ u.isFileActive = false ∧ Untouched p w u)
    ⟨hw.sane, hw.isFileActive, fun pi hpi => ⟨hpi, rfl⟩⟩ fun q _ u hall => ?_)
    fun _ _ h => h.2.2
  obtain ⟨hsane, hfile, hu⟩ := hall
  have hdone : ∀ u', Within (fun e => e = .discard q ∨ ∃ dir, e = .close q dir) u false u' →
      (q = p → p ∉ u.sessions ∨ p ∉ u.procs) →
      Sane u' ∧ u'.isFileActive = false ∧ Untouched p w u' := fun u' hu' hq =>
    ⟨hu'.sane, hu'.isFileActive, hu.trans (untouched_steps hq hu'.steps)⟩
  rw [wp_bind]
  refine within_isClientActive (.refl hfile hsane) (.inl rfl) (fun _ dir => .inr ⟨dir, rfl⟩)
    (fun _ => ⟨hsane, hfile, hu⟩) fun u' hinactive hu' _ => hdone u' hu' fun hq => ?_
  -- an inactive client has no session, or is not there any more
  subst hq
  by_contra hnot
  simp only [not_or, not_not] at hnot
  obtain ⟨pi, hpi⟩ := (Dict.mem_iff _ _).mp hnot.2
  obtain ⟨hpi', hs⟩ := hu pi hpi
  have hid' : Identified q i u := by
    refine ⟨fun s hs' => hid.session s (hs ▸ hs'), fun pi' hpi'' => ?_⟩
    exact hid.proc pi' (hu pi' hpi'').1
  rw [hid'.active ⟨pi, hpi, hid'.proc pi hpi⟩ hnot.1] at hinactive
  cases hinactive

/-- Closing outright leaves the session of `p` as it is, or removes it. -/
theorem countOf_outright {r : Call} (hout : r.closesOutright p = true)
    (h : Steps (r.effects w) w w') : w'.countOf p = w.countOf p ∨ w'.countOf p = none := by
  have hclose : ∀ e, r.effects w e → ∃ q dir, e = .close q dir := by
    intro e he
    cases r with
    | closeSessionAdmin q request =>
      obtain ⟨-, dir, rfl⟩ := he
      exact ⟨q, dir, rfl⟩
    | closeAllSessions => exact he
    | _ => cases hout
  refine (h.mono hclose).invariant (I := fun u => u.countOf p = w.countOf p ∨ u.countOf p = none)
    (.inl rfl) (fun _ _ _ h => h) ?_
  rintro u e hu ⟨q, dir, rfl⟩ hguard
  by_cases hq : q = p
  · refine .inr (countOf_eq_none.mpr fun hp => ?_)
    exact (mem_erase.mp hp).1 hq.symm
  · rw [countOf_apply hguard (by exact hq)]
    exact hu

end Others

/-! ### Opening -/

section Opening

variable {p : Pid} {user : String}

/-- A session of `p` has been opened once more; nothing else that a profile depends on changes. -/
structure OpenedOnce (p : Pid) (w w' : World) : Prop where
  session : ∃ s, w'.sessions.lookup p = some s ∧
    s.referenceCount = (w.countOf p).getD 0 + 1 ∧ s.profileName = w.profileOf p
  profiles : w'.profiles = w.profiles
  shmem : w'.shmem = w.shmem
  procs : w'.procs = w.procs

/-- `open_session` of a living client. -/
theorem wp_openSession_once {Q : Unit → World → Prop} {E : PyErr → World → Prop}
    (hown : p ∈ w.sessions → w.active p = true) (hp : p ∈ w.procs)
    (hQ : ∀ w', (p ∉ w.sessions → w.accessOf user p ≠ none) → OpenedOnce p w w' → Q () w')
    (hE : ∀ e w', p ∉ w.sessions → w.accessOf user p = none → w'.sessions = w.sessions → E e w') :
    wp (openSession user p) Q E w := by
  rw [openSession, wp_bind, isClientActive, wp_tryCatch]
  by_cases hmem : p ∈ w.sessions
  · obtain ⟨s, pi, hs, -, -⟩ := active_iff.mp (hown hmem)
    refine (wp_isClientActive_of_active (hown hmem)).mpr ?_
    rw [if_pos rfl, ActiveSessions.incrementReferenceCount, wp_setMember hs]
    refine hQ _ (fun h => absurd hmem h) ⟨⟨_, lookup_insert _, ?_, ?_⟩, rfl, rfl, rfl⟩
    · rw [countOf_of_lookup hs, getD_some]
    · rw [World.profileOf, hs, bind_some]
  · obtain ⟨pi, hpi⟩ := (Dict.mem_iff _ _).mp hp
    refine wp_isClientActive_of_notMem hmem fun j _ => ?_
    rw [if_neg (by simp), wp_bind]
    have hsame : AccessLists.Same p w ((w.quiet j).discardFile p) := ⟨rfl, rfl, rfl, rfl⟩
    refine (AccessLists.reads_getUserAccess user).wp ⟨rfl, rfl, rfl, rfl⟩ (fun a ha => ?_)
      fun e he => hE e _ hmem ?_ rfl
    · obtain ⟨signals, controls⟩ := a
      rw [wp_bind]
      refine (wp_addClient (by exact hmem)).mpr ⟨fun pi' _ => ?_, fun hnone => ?_⟩
      · refine hQ _ (fun _ => ?_) ⟨⟨_, lookup_insert _, ?_, ?_⟩, rfl, rfl, rfl⟩
        · rw [← accessOf_same hsame, accessOf_of_ok ha]
          simp
        · rw [countOf_eq_none.mpr hmem]
          rfl
        · rw [World.profileOf, (Dict.notMem_iff _ _).mp hmem]
          rfl
      · exact absurd (hpi.symm.trans hnone) (by simp)
    · rw [← accessOf_same hsame, World.accessOf, he]

theorem OpenedOnce.countOf (h : OpenedOnce p w w') :
    w'.countOf p = some ((w.countOf p).getD 0 + 1) := by
  obtain ⟨s, hs, hcount, -⟩ := h.session
  rw [countOf_of_lookup hs, hcount]

/-- `start_profile` of a living client.  When the profile cannot begin, the session has been opened
once more all the same. -/
theorem wp_startProfile_once {Q : Unit → World → Prop} {E : PyErr → World → Prop} {name : String}
    (hown : p ∈ w.sessions → w.active p = true) (hp : p ∈ w.procs)
    (hQ : ∀ w', Profilable w user p → w'.countOf p = some ((w.countOf p).getD 0 + 1) → Q () w')
    (hE : ∀ e w', (Profilable w user p ∧ w'.sessions = w.sessions) ∨
      (¬ Profilable w user p ∧ w'.countOf p = some ((w.countOf p).getD 0 + 1)) → E e w') :
    wp (startProfile user p name) Q E w := by
  rw [startProfile, wp_bind]
  refine wp_openSession_once hown hp (fun w' haccess ho => ?_) fun e w' hmem haccess hs =>
    hE e w' (.inl ⟨.inl ⟨hmem, haccess⟩, hs⟩)
  obtain ⟨s, hs, hcount, hname⟩ := ho.session
  obtain ⟨pi, hpi⟩ := (Dict.mem_iff _ _).mp hp
  have hprofilable : Profilable w user p ↔ s.profileName = none ∧
      shmemPathProf "record-log" p pi.uid ∉ w'.shmem ∧
        (w'.profiles.keys = [] → shmemPathProf "status" p pi.uid ∉ w'.shmem) := by
    rw [ho.profiles, ho.shmem, hname]
    constructor
    · rintro (⟨hmem, hnone⟩ | ⟨hn, hfree⟩)
      · exact absurd hnone (haccess hmem)
      · exact ⟨hn, hfree pi hpi⟩
    · rintro ⟨hn, hfree⟩
      refine .inr ⟨hn, fun pi' hpi' => ?_⟩
      cases hpi.symm.trans hpi'
      exact hfree
  have hleak : ∀ e, ¬ Profilable w user p → E e w' := fun e hnot =>
    hE e w' (.inr ⟨hnot, ho.countOf⟩)
  -- the record log is not the status file
  have hlog : shmemPathProf "record-log" p pi.uid ∈ (w'.beginProfile p s pi.uid name).shmem ↔
      shmemPathProf "record-log" p pi.uid ∈ w'.shmem := by
    rw [World.beginProfile_shmem]
    split_ifs
    · rw [Finset.mem_insert, or_iff_right (by simp [shmemPathProf])]
    · rfl
  have hbegun : ∀ u : World, u.sessions = (w'.beginProfile p s pi.uid name).sessions →
      u.countOf p = some ((w.countOf p).getD 0 + 1) := by
    intro u hu
    have hlookup : u.sessions.lookup p = some { s with profileName := some name } := by
      rw [hu]
      exact lookup_insert _
    rw [countOf_of_lookup hlookup, ← hcount]
  cases hn : s.profileName with
  | some other =>
    refine ActiveSessions.wp_startProfile_of_not (fun s' hs' => ?_) fun msg => hleak _ ?_
    · cases hs.symm.trans hs'
      rw [hn]
      simp
    · rw [hprofilable, hn]
      simp
  | none =>
    rw [hn] at hprofilable
    refine ActiveSessions.wp_startProfile hs hn (ho.procs ▸ hpi) (fun hkeys hstatus msg => ?_)
      (fun hmem msg => ?_) fun hstatus hmem => ?_
    · exact hleak _ fun h => (hprofilable.mp h).2.2 hkeys hstatus
    · exact hE _ _ (.inr ⟨fun h => (hprofilable.mp h).2.1 (hlog.mp hmem), hbegun _ rfl⟩)
    · exact hQ _ (hprofilable.mpr ⟨rfl, fun h => hmem (hlog.mpr h), hstatus⟩) (hbegun _ rfl)

end Opening

/-! ### Closing -/

section Closing

variable {p : Pid}

/-- One close: the session goes when the count was one. -/
def ClosedOnce (p : Pid) (w w' : World) : Prop :=
  w'.countOf p = (w.countOf p).bind fun k => if k ≤ 1 then none else some (k - 1)

theorem closedOnce_of_absent (hp : p ∉ w.sessions) (hp' : p ∉ w'.sessions) :
    ClosedOnce p w w' := by
  rw [ClosedOnce, countOf_eq_none.mpr hp, countOf_eq_none.mpr hp', bind_none]

variable {Q : Unit → World → Prop} {E : PyErr → World → Prop}

/-- Closing a session completely removes it. -/
theorem wp_closeSessionCompletely_absent (hsane : Sane w) (hfile : w.isFileActive = false) (hQ : ∀ w', p ∉ w'.sessions → Q () w') :
    wp (closeSessionCompletely p) Q E w := by
  refine wp_closeSessionCompletely hsane hfile fun j dir _ => hQ _ fun hp => ?_
  exact (mem_erase.mp hp).1 rfl

theorem wp_checkClientActive_absent {Q : Bool → World → Prop}
    {name : String} (hsane : Sane w) (hfile : w.isFileActive = false) (hp : p ∉ w.sessions)
    (hQ : ∀ w', p ∉ w'.sessions → Q false w') : wp (checkClientActive p name) Q E w := by
  rw [checkClientActive, wp_bind, isClientActive, wp_tryCatch]
  refine wp_isClientActive_of_notMem hp fun j _ => ?_
  rw [wp_bind, if_neg (by simp), wp_bind, wp_warn]
  refine wp_closeSessionCompletely_absent ⟨hsane.profiles, hsane.servers⟩ hfile fun w' hp' => ?_
  exact hQ w' hp'

theorem wp_closing_of_mayClose {client request : Pid} {body : Py Unit} (hmay : w.mayClose client request)
    (h : wp body Q E w) : wp (closing client request body) Q E w := by
  rw [closing, wp_bind, wp_ite]
  refine ⟨fun _ => wp_pure.mpr (by rwa [if_pos rfl]), fun hne => ?_⟩
  obtain ⟨pi, hpi, hcap⟩ := hmay.resolve_left hne
  refine wp_hasCapSysAdmin.mpr ⟨fun pi' hpi' => ?_, fun hnone => ?_⟩
  · cases hpi.symm.trans hpi'
    rwa [hcap, if_pos rfl]
  · exact absurd (hpi.symm.trans hnone) (by simp)

/-- `close_session` of an active session whose count is positive. -/
theorem wp_closeSession_active {s : Session}
    {request : Pid} (hsane : Sane w) (hfile : w.isFileActive = false)
    (hs : w.sessions.lookup p = some s) (hact : w.active p = true) (hpos : 0 < s.referenceCount)
    (hQ : ∀ w', ClosedOnce p w w' → Q () w') (hE : ¬ w.mayClose p request → ∀ e, E e w) :
    wp (closeSession p request) Q E w := by
  have hcount := countOf_of_lookup hs
  rw [closeSession]
  by_cases hmay : w.mayClose p request
  · refine wp_closing_of_mayClose hmay ?_
    rw [wp_bind]
    refine wp_checkClientActive_of_active hact ?_
    rw [if_pos rfl, wp_bind, ActiveSessions.getReferenceCount, wp_getMember hs]
    rw [if_neg (by omega), wp_ite]
    refine ⟨fun hone => ?_, fun hmore => ?_⟩
    · -- the last close
      rw [wp_bind, decrementReferenceCount, wp_setMember hs]
      have hsane' : Sane (Effect.apply w (.count p s (s.referenceCount - 1))) :=
        hsane.apply ⟨hs, hact⟩
      refine wp_closeSessionCompletely_absent hsane' hfile fun w' hp' => hQ w' ?_
      rw [ClosedOnce, hcount, countOf_eq_none.mpr hp', bind_some, if_pos (by omega)]
    · rw [decrementReferenceCount, wp_setMember hs]
      refine hQ _ ?_
      rw [ClosedOnce, hcount, bind_some, if_neg (by omega), World.countOf,
        World.record_sessions, lookup_insert, map_some]
  · exact wp_closing (fun h => absurd h hmay) (hE hmay)

theorem wp_closeSession_once {request : Pid}
    (hw : Kept w) (hown : p ∈ w.sessions → w.active p = true)
    (hpos : ∀ k, w.countOf p = some k → 0 < k) (hQ : ∀ w', ClosedOnce p w w' → Q () w')
    (hE : ∀ e, E e w) : wp (closeSession p request) Q E w := by
  by_cases hp : p ∈ w.sessions
  · obtain ⟨s, pi, hs, -, -⟩ := active_iff.mp (hown hp)
    exact wp_closeSession_active hw.sane hw.isFileActive hs (hown hp)
      (hpos _ (countOf_of_lookup hs)) hQ fun _ => hE
  · rw [closeSession]
    refine wp_closing (fun _ => ?_) hE
    rw [wp_bind]
    refine wp_checkClientActive_absent hw.sane hw.isFileActive hp fun w' hp' => ?_
    rw [if_neg (by simp)]
    exact hQ w' (closedOnce_of_absent hp hp')

/-- `stop_profile`: it raises before it changes anything, or closes the session once. -/
theorem wp_stopProfile_once {names : List String} (hw : Kept w) (hown : p ∈ w.sessions → w.active p = true)
    (hpos : ∀ k, w.countOf p = some k → 0 < k) (hQ : ∀ w', ClosedOnce p w w' → Q () w')
    (hE : ∀ e, E e w) : wp (stopProfile p names) Q E w := by
  rw [stopProfile, wp_bind]
  by_cases hp : p ∈ w.sessions
  · obtain ⟨s, pi, hs, hpi, hsame⟩ := active_iff.mp (hown hp)
    refine wp_checkClientActive_of_active (hown hp) ?_
    rw [if_pos rfl, wp_bind]
    cases hn : s.profileName with
    | none =>
      refine ActiveSessions.wp_stopProfile_of_not (fun s' hs' => ?_) fun msg => hE _
      cases hs.symm.trans hs'
      exact hn
    | some name =>
      obtain ⟨pids, hpids, hmem⟩ := hw.sane.profiles p s name hs hn
      refine ActiveSessions.wp_stopProfile hs hn hpids hmem fun j _ => ?_
      rw [if_pos rfl]
      have hended : Sane (Effect.apply w (.endProfile p s name)) :=
        hw.sane.apply ⟨hs, hown hp, hn⟩
      refine wp_closeSession_active (s := { s with profileName := none })
        ⟨hended.profiles, hended.servers⟩ hw.isFileActive (lookup_insert _) ?_
        (hpos s.referenceCount (countOf_of_lookup hs)) (fun w' hclosed => hQ w' ?_)
        fun hnot => absurd (.inl rfl) hnot
      · exact active_iff.mpr ⟨_, pi, lookup_insert _, hpi, hsame⟩
      · -- the end of the profile leaves the count as it was
        rw [ClosedOnce] at hclosed ⊢
        rw [hclosed, countOf_of_lookup hs]
        rw [countOf_of_lookup (s := { s with profileName := none }) (lookup_insert _)]
  · refine wp_checkClientActive_absent hw.sane hw.isFileActive hp fun w' hp' => ?_
    rw [if_neg (by simp)]
    exact hQ w' (closedOnce_of_absent hp hp')

end Closing

/-! ### Steps -/

section Steps

variable {p : Pid} {o : Outcomes} {r : Call} {a : Action}

theorem Kept.withOutcomes (h : Kept w) (o : Outcomes) : Kept (w.withOutcomes o) :=
  ⟨⟨h.sane.profiles, h.sane.servers⟩, h.isFileActive, h.recorded.1, h.recorded.2⟩

/-- What is known about a client between two requests. -/
structure Known (p : Pid) (i : ℕ × ℕ × ℕ) (w : World) : Prop where
  kept : Kept w
  identified : Identified p i w
  alive : w.aliveAs p i

theorem Known.withOutcomes (h : Known p i w) (o : Outcomes) : Known p i (w.withOutcomes o) :=
  ⟨h.kept.withOutcomes o, ⟨h.identified.session, h.identified.proc⟩, h.alive⟩

theorem Known.own (h : Known p i w) (hp : p ∈ w.sessions) : w.active p = true :=
  h.identified.active h.alive hp

theorem Known.mem (h : Known p i w) : p ∈ w.procs := by
  obtain ⟨pi, hpi, -⟩ := h.alive
  exact (Dict.mem_iff _ _).mpr ⟨pi, hpi⟩

/-- What a specification says about a call. -/
theorem afterCall_of_wp {Q E : World → Prop}
    (h : wp r.run (fun _ => Q) (fun _ => E) (w.withOutcomes o)) :
    (r.returns w o = true → Q (w.afterCall o r)) ∧
      (r.returns w o = false → E (w.afterCall o r)) :=
  ⟨fun hr => (of_returns h hr).elim fun _ h => h, fun hr => (of_raises h hr).elim fun _ h => h⟩

theorem profilable_withOutcomes {user : String} :
    Profilable (w.withOutcomes o) user p ↔ Profilable w user p := by
  have hsame : AccessLists.Same p w (w.withOutcomes o) := ⟨rfl, rfl, rfl, rfl⟩
  unfold Profilable
  rw [accessOf_same hsame]
  rfl

theorem countOf_call (hw : Known p i w) (hopens : r.opens p = false) (hcloses : r.closes p = false)
    (hout : r.closesOutright p = false) (hC : ¬ Promotes w p (.call o r))
    (hst : service.step w (.call o r) w') (halive : p ∈ w'.procs) : w'.countOf p = w.countOf p := by
  obtain ⟨-, hfresh, rfl, hwithin⟩ := call_spec hw.kept hst
  have hw' := hw.withOutcomes o
  by_cases hwrites : WritesFor w p r
  · -- the lock is taken, and write mode ends before it opens a session
    have hlock : w.controlLock ≠ none := fun hfree => hC ⟨hfree, hwrites⟩
    suffices h : wp r.run (fun _ w' => w'.countOf p = w.countOf p)
        (fun _ w' => w'.countOf p = w.countOf p) (w.withOutcomes o) from wp_final.mp h
    cases r with
    | startBatch c signals controls =>
      rw [Call.run, wp_map]
      exact startBatch_locked hw'.kept hfresh hwrites.1 hlock
    | writeControl c name domain domainIdx setting =>
      rw [Call.run, wp_map]
      exact writeControl_locked hwrites.1 hw'.kept.isFileActive hlock
    | restoreControl c =>
      rw [Call.run, wp_map]
      exact restoreControl_locked hwrites.1 hw'.kept.isFileActive hlock
    | _ => exact hwrites.elim
  · by_cases hall : r = .closeInactiveClients
    · subst hall
      have hrun : wp Call.closeInactiveClients.run (fun _ => Untouched p (w.withOutcomes o))
          (fun _ => Untouched p (w.withOutcomes o)) (w.withOutcomes o) := by
        rw [Call.run, wp_map]
        exact closeInactiveClients_untouched hw'.kept hw'.identified
      obtain ⟨pi, hpi⟩ := (Dict.mem_iff _ _).mp halive
      exact congrArg (Option.map Session.referenceCount) (wp_final.mp hrun pi hpi).2
    · refine (countOf_steps hwithin.steps fun e he => ?_ :
        (w.afterCall o r).countOf p = (w.withOutcomes o).countOf p)
      refine effects_keepsCount hw'.own hw'.mem hopens hcloses hout hall (fun h => hwrites ?_) he
      cases r <;> exact h

theorem tally_call (hout : r.closesOutright p = false) : tally p w (.call o r) w' n =
    ⟨(n.renew p w).opens + (if r.opens p && r.returns w o then 1 else 0),
      (n.renew p w).closes + (if r.closes p && r.returns w o then 1 else 0)⟩ := by
  simp [tally, hout]

theorem Counted.uncounted (h : Counted p w n) (hout : r.closesOutright p = false)
    (hopens : (r.opens p && r.returns w o) = false)
    (hcloses : (r.closes p && r.returns w o) = false) (heq : w'.countOf p = w.countOf p) :
    Counted p w' (tally p w (.call o r) w' n) := by
  rw [tally_call hout, hopens, hcloses]
  exact h.renew.of_countOf heq

/-- An `open_session` or a `start_profile`. -/
theorem countsRight_open (hw : Known p i w) (h : Counted p w n) (hopens : r.opens p = true) :
    CountsRight p w n (.call o r) (w.afterCall o r) ↔ Starts w p (.call o r) := by
  have hw' := hw.withOutcomes o
  have hcloses : r.closes p = false ∧ r.closesOutright p = false := by
    cases r <;> first | exact ⟨rfl, rfl⟩ | cases hopens
  -- a request that returns has opened the session once
  have hopened : r.returns w o = true →
      (w.afterCall o r).countOf p = some ((w.countOf p).getD 0 + 1) →
      Counted p (w.afterCall o r) (tally p w (.call o r) (w.afterCall o r) n) := by
    intro hr heq
    rw [tally_call hcloses.2, hopens, hcloses.1, hr]
    exact h.opened heq
  -- a request that raises must have left the sessions as they were
  have hsame : r.returns w o = false → (w.afterCall o r).sessions = w.sessions →
      Counted p (w.afterCall o r) (tally p w (.call o r) (w.afterCall o r) n) := by
    intro hr heq
    refine h.uncounted hcloses.2 (by rw [hr, Bool.and_false]) (by rw [hr, Bool.and_false]) ?_
    rw [World.countOf, World.countOf, heq]
  cases r with
  | openSession user q =>
    obtain rfl : q = p := by simpa [Call.opens] using hopens
    have hrun : wp (Call.openSession user q).run
        (fun _ w' => w'.countOf q = some ((w.countOf q).getD 0 + 1))
        (fun _ w' => w'.sessions = w.sessions) (w.withOutcomes o) := by
      rw [Call.run, wp_map]
      exact wp_openSession_once hw'.own hw'.mem (fun w' _ ho => ho.countOf)
        fun _ _ _ _ hs => hs
    obtain ⟨hret, hraise⟩ := afterCall_of_wp hrun
    refine ⟨fun _ => trivial, fun _ => ⟨?_, fun hfail => hfail.elim⟩⟩
    cases hr : (Call.openSession user q).returns w o with
    | true => exact hopened hr (hret hr)
    | false => exact hsame hr (hraise hr)
  | startProfile user q name =>
    obtain rfl : q = p := by simpa [Call.opens] using hopens
    have hrun : wp (Call.startProfile user q name).run
        (fun _ w' => Profilable w user q ∧ w'.countOf q = some ((w.countOf q).getD 0 + 1))
        (fun _ w' => (Profilable w user q ∧ w'.sessions = w.sessions) ∨
          (¬ Profilable w user q ∧ w'.countOf q = some ((w.countOf q).getD 0 + 1)))
        (w.withOutcomes o) := by
      rw [Call.run, wp_map]
      simp only [← profilable_withOutcomes (w := w) (o := o)]
      exact wp_startProfile_once hw'.own hw'.mem (fun w' hp ho => ⟨hp, ho⟩) fun _ _ h => h
    obtain ⟨hret, hraise⟩ := afterCall_of_wp hrun
    change _ ↔ (q = q → Profilable w user q)
    cases hr : (Call.startProfile user q name).returns w o with
    | true =>
      obtain ⟨hprofilable, hcount⟩ := hret hr
      refine ⟨fun _ _ => hprofilable, fun _ => ⟨hopened hr hcount, fun hfail => ?_⟩⟩
      exact absurd (hr.symm.trans hfail.2) (by simp)
    | false =>
      rcases hraise hr with ⟨hprofilable, hs⟩ | ⟨hnot, hcount⟩
      · exact ⟨fun _ _ => hprofilable, fun _ => ⟨hsame hr hs, fun _ => hs⟩⟩
      · -- the count has grown, so the sessions have changed
        refine ⟨fun hright => ?_, fun hstarts => absurd (hstarts rfl) hnot⟩
        have hs := hright.unchanged ⟨rfl, hr⟩
        have hsame : (w.afterCall o (.startProfile user q name)).countOf q = w.countOf q := by
          rw [World.countOf, hs]
          rfl
        rw [hsame] at hcount
        cases hk : w.countOf q with
        | none =>
          rw [hk] at hcount
          cases hcount
        | some k =>
          rw [hk, getD_some, Option.some.injEq] at hcount
          omega
  | _ => cases hopens

/-- A `close_session` or a `stop_profile`. -/
theorem countsRight_close (hw : Known p i w) (h : Counted p w n) (hcloses : r.closes p = true) :
    CountsRight p w n (.call o r) (w.afterCall o r) := by
  have hw' := hw.withOutcomes o
  have hopens : r.opens p = false ∧ r.closesOutright p = false := by
    cases r <;> first | exact ⟨rfl, rfl⟩ | cases hcloses
  have hpos : ∀ k, (w.withOutcomes o).countOf p = some k → 0 < k := by
    intro k hk
    have hn := counted_iff.mp h
    rw [show w.countOf p = some k from hk] at hn
    split_ifs at hn with hlt
    cases hn
    omega
  have hrun : wp r.run (fun _ => ClosedOnce p (w.withOutcomes o))
      (fun _ w' => w' = w.withOutcomes o) (w.withOutcomes o) := by
    cases r with
    | closeSession q request =>
      obtain rfl : q = p := by simpa [Call.closes] using hcloses
      rw [Call.run, wp_map]
      exact wp_closeSession_once hw'.kept hw'.own hpos (fun _ h => h) fun _ => rfl
    | stopProfile q names =>
      obtain rfl : q = p := by simpa [Call.closes] using hcloses
      rw [Call.run, wp_map]
      exact wp_stopProfile_once hw'.kept hw'.own hpos (fun _ h => h) fun _ => rfl
    | _ => cases hcloses
  obtain ⟨hret, hraise⟩ := afterCall_of_wp hrun
  refine ⟨?_, fun hfail => ?_⟩
  · cases hr : r.returns w o with
    | true =>
      rw [tally_call hopens.2, hcloses, hopens.1, hr]
      exact h.closed (hret hr)
    | false =>
      refine h.uncounted hopens.2 (by rw [hr, Bool.and_false]) (by rw [hr, Bool.and_false]) ?_
      rw [hraise hr]
      rfl
  · cases r <;> first | exact hfail.elim | cases hcloses

theorem countsRight_outright (h : Counted p w n) (hout : r.closesOutright p = true)
    (hcount : w'.countOf p = w.countOf p ∨ w'.countOf p = none) :
    CountsRight p w n (.call o r) w' := by
  refine ⟨?_, fun hfail => ?_⟩
  · have htally : tally p w (.call o r) w' n = (n.renew p w).renew p w' := by
      simp [tally, hout]
    rw [htally]
    rcases hcount with heq | hnone
    · exact (h.renew.of_countOf heq).renew
    · rw [Tally.renew_of_notMem (countOf_eq_none.mp hnone), counted_iff, hnone]
      rfl
  · cases r <;> first | exact hfail.elim | cases hout

/-- One step: the count stays right exactly when a `start_profile` comes when the profile can
begin. -/
theorem countsRight_iff (hw : Known p i w) (h : Counted p w n) (hC : Undisturbed w p a)
    (hst : service.step w a w') (halive : p ∈ w'.procs) :
    CountsRight p w n a w' ↔ Starts w p a := by
  have haround : a.isAround = true → CountsRight p w n a w' := by
    intro ha
    obtain ⟨procs, servers, settings, users, now, rfl⟩ := (around_spec ha hst).rest
    refine ⟨?_, fun hfail => ?_⟩
    · cases a <;> first | exact h.renew.of_countOf rfl | cases ha
    · cases a <;> first | exact hfail.elim | cases ha
  cases a with
  | call o r =>
    obtain ⟨-, -, rfl, hwithin⟩ := call_spec hw.kept hst
    by_cases hopens : r.opens p = true
    · exact countsRight_open hw h hopens
    rw [Bool.not_eq_true] at hopens
    have hstarts : Starts w p (.call o r) := by
      cases r with
      | startProfile user q name => exact fun hq => absurd hq (by simpa [Call.opens] using hopens)
      | _ => trivial
    refine iff_of_true ?_ hstarts
    by_cases hcloses : r.closes p = true
    · exact countsRight_close hw h hcloses
    by_cases hout : r.closesOutright p = true
    · refine countsRight_outright h hout ?_
      exact countOf_outright (w := w.withOutcomes o) hout hwithin.steps
    rw [Bool.not_eq_true] at hcloses hout
    refine ⟨h.uncounted hout (by rw [hopens]; rfl) (by rw [hcloses]; rfl) ?_, fun hfail => ?_⟩
    · exact countOf_call hw hopens hcloses hout hC hst halive
    · cases r with
      | startProfile user q name =>
        exact absurd hfail.1 (by simpa [Call.opens] using hopens)
      | _ => exact hfail.elim
  | restart o => exact hC.elim
  | _ => exact iff_of_true (haround rfl) trivial

theorem Known.step (hw : Known p i w) (hC : Undisturbed w p a) (hst : service.step w a w')
    (halive : w'.aliveAs p i) : Known p i w' := by
  have hidentified : (∀ s, w'.sessions.lookup p = some s → s.identity = i) → Known p i w' := by
    refine fun hs => ⟨hw.kept.step hst, ⟨hs, fun pi hpi => ?_⟩, halive⟩
    obtain ⟨pi', hpi', hi⟩ := halive
    cases hpi.symm.trans hpi'
    exact hi
  refine hidentified ?_
  have haround : a.isAround = true → ∀ s, w'.sessions.lookup p = some s → s.identity = i := by
    intro ha
    obtain ⟨procs, servers, settings, users, now, rfl⟩ := (around_spec ha hst).rest
    exact hw.identified.session
  cases a with
  | call o r =>
    obtain ⟨-, hfresh, rfl, hwithin⟩ := call_spec hw.kept hst
    have hid := (hw.withOutcomes o).identified.steps hwithin.steps
      fun e he => effects_spares (w := w.withOutcomes o) hfresh hw.mem he
    exact hid.session
  | restart o => exact hC.elim
  | _ => exact haround rfl

end Steps

/-- **Reference counts.** Take any reachable state in which `p` has no session, and any run from it
in which the process `p` lives on unchanged, the service is not restarted and `p` is not promoted to
write mode.  As long as each `start_profile` of `p` comes when the profile can begin, its session
is open exactly while there are more opens than closes, with their difference as the reference
count; and the next action keeps this, and leaves the sessions alone when it is a `start_profile`
that raises, if and only if it is not one that comes when the profile cannot begin. -/
theorem counted_of_reachable {w₀ w₁ : World} {p : Pid} {i : ℕ × ℕ × ℕ} {x : World × Tally}
    (hw₀ : Fresh w₀) (hr : service.Reachable w₀ w₁) (hp : p ∉ w₁.sessions)
    (h : (service.record (tally p)).ReachableIf
      (fun x a => x.1.aliveAs p i ∧ Undisturbed x.1 p a ∧ Starts x.1 p a) (w₁, ⟨0, 0⟩) x)
    (halive : x.1.aliveAs p i) :
    Counted p x.1 x.2 ∧ ∀ a w', Undisturbed x.1 p a → service.step x.1 a w' → w'.aliveAs p i →
      (CountsRight p x.1 x.2 a w' ↔ Starts x.1 p a) := by
  have hmem : ∀ {w : World}, w.aliveAs p i → p ∈ w.procs :=
    fun ⟨pi, hpi, _⟩ => (Dict.mem_iff _ _).mpr ⟨pi, hpi⟩
  have hinv : x.1.aliveAs p i → Known p i x.1 ∧ Counted p x.1 x.2 := by
    refine h.invariant (I := fun x => x.1.aliveAs p i → Known p i x.1 ∧ Counted p x.1 x.2) ?_ ?_
    · intro halive
      have hnone : ∀ s, w₁.sessions.lookup p ≠ some s := fun s hs =>
        hp ((Dict.mem_iff _ _).mpr ⟨s, hs⟩)
      refine ⟨⟨kept_of_reachable hw₀ hr, ⟨fun s hs => absurd hs (hnone s), fun pi hpi => ?_⟩,
        halive⟩, ⟨⟨fun hmem => absurd hmem hp, fun hlt => ?_⟩, fun s hs => absurd hs (hnone s)⟩⟩
      · obtain ⟨pi', hpi', hi⟩ := halive
        cases hpi.symm.trans hpi'
        exact hi
      · cases hlt
    · rintro y a z hy ⟨halive, hC, hstarts⟩ ⟨hst, htally⟩ halive'
      obtain ⟨hknown, hcounted⟩ := hy halive
      rw [htally]
      exact ⟨hknown.step hC hst halive',
        ((countsRight_iff hknown hcounted hC hst (hmem halive')).mpr hstarts).counted⟩
  obtain ⟨hknown, hcounted⟩ := hinv halive
  exact ⟨hcounted, fun a w' hC hst halive' =>
    countsRight_iff hknown hcounted hC hst (hmem halive')⟩

/-! ### Starting twice -/

/-- The leader asks for a profile. -/
def leaderStarts : Action := .call (.succeed none) (.startProfile "user" 10 "app")

/-- The leader has started a profile. -/
def profileStarted : World :=
  leaderAndChild.afterCall (.succeed none) (.startProfile "user" 10 "app")

/-- The leader has asked for a second profile, and the request has raised. -/
def profileStartedTwice : World :=
  profileStarted.afterCall (.succeed none) (.startProfile "user" 10 "app")

theorem step_profileStarted : service.step leaderAndChild leaderStarts profileStarted :=
  step_call rfl rfl

theorem step_profileStartedTwice : service.step profileStarted leaderStarts profileStartedTwice :=
  step_call (by decide) (by decide)

theorem tally_profileStarted :
    tally 10 leaderAndChild leaderStarts profileStarted ⟨0, 0⟩ = ⟨1, 0⟩ := by
  decide

theorem undisturbed_leaderStarts (w : World) : Undisturbed w 10 leaderStarts := fun h => h.2

theorem aliveAs_leader : leaderAndChild.aliveAs 10 (1, 1, 3) ∧
    profileStarted.aliveAs 10 (1, 1, 3) ∧ profileStartedTwice.aliveAs 10 (1, 1, 3) :=
  ⟨⟨⟨1, 1, 3, 10, true⟩, by decide, rfl⟩, ⟨⟨1, 1, 3, 10, true⟩, by decide, rfl⟩,
    ⟨⟨1, 1, 3, 10, true⟩, by decide, rfl⟩⟩

theorem counted_profileStarted : profileStarted.countOf 10 = some 1 ∧
    Counted 10 profileStarted ⟨1, 0⟩ := by
  have hstarts : Starts leaderAndChild 10 leaderStarts := by
    refine fun _ => .inr ⟨by decide, fun pi _ => ⟨?_, fun _ => ?_⟩⟩
    · exact Finset.notMem_empty _
    · exact Finset.notMem_empty _
  have hrun : (service.record (tally 10)).ReachableIf
      (fun x a => x.1.aliveAs 10 (1, 1, 3) ∧ Undisturbed x.1 10 a ∧ Starts x.1 10 a)
      (leaderAndChild, ⟨0, 0⟩) (profileStarted, ⟨1, 0⟩) :=
    .tail (.refl _) ⟨aliveAs_leader.1, undisturbed_leaderStarts _, hstarts⟩
      ⟨step_profileStarted, tally_profileStarted.symm⟩
  exact ⟨by decide, (counted_of_reachable (World.fresh_small _ _) (.refl _)
    (notMem_empty 10) hrun aliveAs_leader.2.1).1⟩

/-- A second `start_profile` raises, and leaves the session with a reference count that no request
will take back. -/
theorem start_twice_leaks : ¬ ∀ (w₀ w₁ : World) (p : Pid) (i : ℕ × ℕ × ℕ) (x : World × Tally),
    Fresh w₀ → service.Reachable w₀ w₁ → p ∉ w₁.sessions →
    (service.record (tally p)).ReachableIf (fun x a => x.1.aliveAs p i ∧ Undisturbed x.1 p a)
      (w₁, ⟨0, 0⟩) x → x.1.aliveAs p i →
    Counted p x.1 x.2 ∧ ∀ a w', Undisturbed x.1 p a → service.step x.1 a w' → w'.aliveAs p i →
      CountsRight p x.1 x.2 a w' := by
  intro hall
  have hrun : (service.record (tally 10)).ReachableIf
      (fun x a => x.1.aliveAs 10 (1, 1, 3) ∧ Undisturbed x.1 10 a)
      (leaderAndChild, ⟨0, 0⟩) (profileStarted, ⟨1, 0⟩) :=
    .tail (.refl _) ⟨aliveAs_leader.1, undisturbed_leaderStarts _⟩
      ⟨step_profileStarted, tally_profileStarted.symm⟩
  have hright := (hall _ _ 10 (1, 1, 3) _ (World.fresh_small _ _) (.refl _)
    (notMem_empty 10) hrun aliveAs_leader.2.1).2 _ _ (undisturbed_leaderStarts _)
    step_profileStartedTwice aliveAs_leader.2.2
  have hsame : profileStartedTwice.countOf 10 = profileStarted.countOf 10 := by
    rw [World.countOf, hright.unchanged ⟨rfl, by decide⟩]
    rfl
  exact absurd hsame (by decide)

end Geopm
