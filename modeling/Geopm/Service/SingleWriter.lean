import Geopm.Service.Runs

/-!
# A single writer, batch servers included

* `SingleWriter` : every running batch server that may write controls, and every client whose
  `write_control` is accepted, belongs to the owner of the control lock;
* `closes` : the session that a call closes; `Covered` : each running server that may write
  controls is the one recorded in a session;
* `singleWriter_of_reachable` : `SingleWriter` holds in every run that closes the session of the
  owner of the lock only while that session records the servers started under the lock.

The lock belongs to the session leader, but a batch server to the client that asked for it; closing
the session of the leader leaves the server running.
-/

namespace Geopm

open Prog

/-- The operations considered: sessions, batch servers, controls and the watch, and everything
that happens around the service. -/
def Action.isWriterAction : Action → Bool
  | .call _ (.openSession ..) => true
  | .call _ (.closeSession ..) => true
  | .call _ (.closeSessionAdmin ..) => true
  | .call _ (.startBatch ..) => true
  | .call _ (.stopBatch ..) => true
  | .call _ (.writeControl ..) => true
  | .call _ (.restoreControl ..) => true
  | .call _ (.checkClient ..) => true
  | a => a.isAround

/-- Running batch servers with controls were started under the lock that is held now. -/
def Owned (w : World) : Prop :=
  ∀ v server, w.servers.lookup v = some server → server.controlConfig ≠ [] →
    w.controlLock ≠ none ∧ server.lockPid = w.controlLock

/-- Each party that can change a control belongs to the owner of the control lock. -/
structure SingleWriter (w : World) : Prop where
  servers : Owned w
  clients : ∀ o c name domain domainIdx setting,
    (w.afterCall o (.writeControl c name domain domainIdx setting)).accesses ≠ w.accesses →
      (w.controlLock = none ∨ w.controlLock = some (w.writerOf c)) ∧
        (w.afterCall o (.writeControl c name domain domainIdx setting)).controlLock =
          some (w.writerOf c)

/-- The running servers that may write controls are recorded in the session of `p`. -/
def Covered (w : World) (p : Pid) : Prop :=
  ∀ v server, w.servers.lookup v = some server → server.controlConfig ≠ [] →
    w.batchOf p = some v

/-- The call closes the session of `p`. -/
def closes (w : World) : Call → Pid → Prop
  | .openSession _ q, p => p = q ∧ w.stale q = true
  | .closeSession q request, p => p = q ∧ w.mayClose q request ∧
      (w.active q = false ∨ ∃ s, w.sessions.lookup q = some s ∧
        (s.referenceCount = 0 ∨ s.referenceCount = 1))
  | .closeSessionAdmin q request, p => p = q ∧ w.mayClose q request
  | .startBatch c _ _, p => p = c ∧ w.active c = false
  | .stopBatch c _, p => p = c ∧ w.active c = false
  | .writeControl c _ _ _ _, p => p = c ∧ w.active c = false
  | .restoreControl c, p => p = c ∧ w.active c = false
  | .checkClient q, p => p = q ∧ q ∈ w.sessions ∧ q ∉ w.procs
  | _, _ => False

/-- A call that closes the session of the owner of the lock stops every server started under the
lock. -/
def ClosesCovered (w : World) : Action → Prop
  | .call _ r => ∀ p, closes w r p → w.controlLock = some p → Covered w p
  | _ => True

/-! ### Effects -/

/-- The effect does not close a session or release the lock. -/
def KeepsLock : Effect → Prop
  | .close _ _ => False
  | .release _ _ => False
  | _ => True

/-- The effects of a call that closes the session of `p`. -/
def ClosingEffect (p : Pid) : Effect → Prop
  | .discard _ => True
  | .close q _ => q = p
  | .openSession q _ _ => q = p
  | .count q _ _ => q = p
  | _ => False

section Effects

variable {w : World} {e : Effect} {p : Pid}

theorem Owned.apply (h : Owned w) (hguard : Effect.guard w e) (he : KeepsLock e) :
    Owned (Effect.apply w e) := by
  cases e with
  | close p dir => exact he.elim
  | release p dir => exact he.elim
  | drop p lock =>
    intro v server hv
    exact h v server (lookup_without.mp hv).2
  | take q =>
    intro v server hv hne
    exact absurd hguard.1 (h v server hv hne).1
  | startServer c s v proc signals controls =>
    intro u server hu hne
    change (w.servers.insert v _).lookup u = some server at hu
    rw [Dict.lookup_insert_eq] at hu
    split_ifs at hu
    · cases hu
      exact ⟨hguard.2.2.2.2.2.2.2 hne, rfl⟩
    · exact h u server hu hne
  | stopServer c s v =>
    intro u server hu
    exact h u server (lookup_stopped hu)
  | _ => exact h

/-- Servers under a free lock do not exist, and the owner's session records the others. -/
structure OwnedCovered (p : Pid) (w : World) : Prop where
  owned : Owned w
  covered : w.controlLock = some p → Covered w p

theorem OwnedCovered.apply (h : OwnedCovered p w) (hguard : Effect.guard w e)
    (he : ClosingEffect p e) : OwnedCovered p (Effect.apply w e) := by
  cases e with
  | discard q => exact ⟨h.owned, h.covered⟩
  | openSession q user s =>
    refine ⟨h.owned, fun hlock v server hv hne => ?_⟩
    -- a client without a session records no server
    have hb := h.covered hlock v server hv hne
    rw [World.batchOf, (Dict.notMem_iff _ _).mp (he ▸ hguard.1)] at hb
    cases hb
  | count q s n =>
    subst he
    refine ⟨h.owned, fun hlock v server hv hne => ?_⟩
    rw [← h.covered hlock v server hv hne, batchOf_of_lookup hguard.1]
    exact batchOf_record w q _
  | close q dir =>
    subst he
    by_cases hlock : w.controlLock = some q
    · -- the recorded server is the only one, and it ends
      have hfree : (Effect.apply w (.close q dir)).controlLock = none := if_pos hlock
      refine ⟨fun v server hv hne => ?_, fun h' => by rw [hfree] at h'; cases h'⟩
      obtain ⟨hother, hold⟩ := lookup_without.mp hv
      exact absurd (h.covered hlock v server hold hne) hother
    · have hsame : (Effect.apply w (.close q dir)).controlLock = w.controlLock := if_neg hlock
      refine ⟨fun v server hv hne => ?_, fun h' => absurd (hsame ▸ h') hlock⟩
      rw [hsame]
      exact h.owned v server (lookup_without.mp hv).2 hne
  | _ => exact he.elim

end Effects
/-! ### Calls -/

section Calls

variable {w w' : World} {c : Pid} {A : Effect → Prop}

theorem writeEffect_keeps {e : Effect} (h : WriteEffect w c e) : KeepsLock e := by
  cases e <;> first | exact h.elim | trivial

/-- A method that needs a session either closes an inactive one, or keeps the lock. -/
theorem onClient_cases (hA : ∀ e, A e → KeepsLock e) :
    (∀ e, OnClient w c A e → KeepsLock e) ∨
      (w.active c = false ∧ ∀ e, OnClient w c A e → ClosingEffect c e) := by
  cases hact : w.active c with
  | true =>
    refine .inl ?_
    rintro e (⟨hn, -⟩ | ⟨-, he⟩)
    · rw [hact] at hn
      cases hn
    · exact hA e he
  | false =>
    refine .inr ⟨rfl, ?_⟩
    rintro e (⟨-, rfl | ⟨dir, rfl⟩⟩ | ⟨hn, -⟩)
    · trivial
    · exact rfl
    · rw [hact] at hn
      cases hn

/-- A call keeps the lock, or closes the session of one PID. -/
theorem effects_writer {o : Outcomes} {r : Call} (hr : (Action.call o r).isWriterAction = true) :
    (∀ e, r.effects w e → KeepsLock e) ∨
      ∃ p, closes w r p ∧ ∀ e, r.effects w e → ClosingEffect p e := by
  cases r with
  | openSession user p =>
    cases hstale : w.stale p with
    | true =>
      refine .inr ⟨p, ⟨rfl, hstale⟩, fun e he => ?_⟩
      cases e with
      | discard q => trivial
      | close q dir => exact he.1
      | openSession q u s => exact he.1
      | count q s n => exact he.1
      | _ => exact he.elim
    | false =>
      refine .inl fun e he => ?_
      cases e with
      | close q dir =>
        exact absurd (hstale.symm.trans he.2) (by simp)
      | _ => first | exact he.elim | trivial
  | closeSession p request =>
    by_cases hcloses : closes w (.closeSession p request) p
    · refine .inr ⟨p, hcloses, ?_⟩
      rintro e ⟨-, ⟨-, rfl | ⟨dir, rfl⟩⟩ | ⟨-, he⟩⟩
      · trivial
      · exact rfl
      · cases e with
        | count q s n => exact he
        | close q dir => exact he.1
        | _ => exact he.elim
    · refine .inl ?_
      rintro e ⟨hmay, ⟨hact, -⟩ | ⟨-, he⟩⟩
      · exact absurd ⟨rfl, hmay, .inl hact⟩ hcloses
      · cases e with
        | close q dir => exact absurd ⟨rfl, hmay, .inr he.2⟩ hcloses
        | count q s n => trivial
        | _ => exact he.elim
  | closeSessionAdmin p request =>
    by_cases hmay : w.mayClose p request
    · refine .inr ⟨p, ⟨rfl, hmay⟩, ?_⟩
      rintro e ⟨-, dir, rfl⟩
      exact rfl
    · exact .inl fun e he => absurd he.1 hmay
  | startBatch c signals controls =>
    refine (onClient_cases ?_).imp id fun ⟨hact, he⟩ => ⟨c, ⟨rfl, hact⟩, he⟩
    rintro e ⟨-, ⟨-, he⟩ | he⟩
    · exact writeEffect_keeps he
    · cases e <;> first | exact he.elim | trivial
  | stopBatch c v =>
    refine (onClient_cases fun e he => ?_).imp id fun ⟨hact, he⟩ => ⟨c, ⟨rfl, hact⟩, he⟩
    cases e <;> first | exact he.elim | trivial
  | writeControl c name domain domainIdx setting =>
    refine (onClient_cases ?_).imp id fun ⟨hact, he⟩ => ⟨c, ⟨rfl, hact⟩, he⟩
    rintro e ⟨-, he | ⟨s, rfl⟩ | ⟨st, rfl⟩⟩
    · exact writeEffect_keeps he
    · trivial
    · trivial
  | restoreControl c =>
    refine (onClient_cases ?_).imp id fun ⟨hact, he⟩ => ⟨c, ⟨rfl, hact⟩, he⟩
    rintro e (he | ⟨st, rfl⟩)
    · exact writeEffect_keeps he
    · trivial
  | checkClient p =>
    by_cases hdead : p ∈ w.sessions ∧ p ∉ w.procs
    · refine .inr ⟨p, ⟨rfl, hdead⟩, ?_⟩
      rintro e ⟨-, -, dir, rfl⟩
      exact rfl
    · exact .inl fun e he => absurd ⟨he.1, he.2.1⟩ hdead
  | _ => cases hr

theorem Owned.call {o : Outcomes} {r : Call} (hkept : Kept w) (h : Owned w)
    (hr : (Action.call o r).isWriterAction = true) (hC : ClosesCovered w (.call o r))
    (hst : service.step w (.call o r) w') : Owned w' := by
  obtain ⟨-, -, -, hwithin⟩ := call_spec hkept hst
  rcases effects_writer (w := w.withOutcomes o) hr with hkeeps | ⟨p, hcloses, hclosing⟩
  · exact (hwithin.steps.mono hkeeps).invariant (I := Owned) h (fun _ _ _ h => h)
      fun _ _ h he hguard => h.apply hguard he
  · have hstart : OwnedCovered p (w.withOutcomes o) := ⟨h, hC p (by cases r <;> exact hcloses)⟩
    refine ((hwithin.steps.mono hclosing).invariant (I := OwnedCovered p) hstart ?_ ?_).owned
    · exact fun _ _ _ h => ⟨h.owned, h.covered⟩
    · exact fun _ _ h he hguard => h.apply hguard he

theorem Owned.around (h : Owned w) (ha : Around w w') : Owned w' := by
  intro v server hv hne
  obtain ⟨hlock, howner⟩ := h v server (ha.servers v server hv) hne
  obtain ⟨procs, servers, settings, users, now, rfl⟩ := ha.rest
  exact ⟨hlock, howner⟩

end Calls

/-! ### Writing controls -/

theorem writeEffect_lock {w w' : World} {c : Pid} (h : Steps (WriteEffect w c) w w') :
    w'.accesses = w.accesses ∧ (w'.controlLock = w.controlLock ∨ w.controlLock = none) := by
  refine h.invariant (I := fun w' => w'.accesses = w.accesses ∧
    (w'.controlLock = w.controlLock ∨ w.controlLock = none)) ⟨rfl, .inl rfl⟩ (fun _ _ _ h => h) ?_
  rintro w' e ⟨hacc, hlock⟩ he hguard
  cases e with
  | take q =>
    refine ⟨hacc, .inr ?_⟩
    rcases hlock with hlock | hlock
    · exact hlock ▸ hguard.1
    · exact hlock
  | discard q => exact ⟨hacc, hlock⟩
  | drop q lock => exact ⟨hacc, hlock⟩
  | openSession q u s => exact ⟨hacc, hlock⟩
  | count q s n => exact ⟨hacc, hlock⟩
  | setAside dir => exact ⟨hacc, hlock⟩
  | _ => exact he.elim

/-- From `w` to `w'` nothing was passed to the platform, or the writer of `c` holds the lock and no
other PID held it before. -/
def PassedAsWriter (c : Pid) (w w' : World) : Prop :=
  w'.accesses = w.accesses ∨
    ((w.controlLock = none ∨ w.controlLock = some (w.writerOf c)) ∧
      w'.controlLock = some (w.writerOf c))

theorem writeControl_owner {w : World} {c : Pid} {name : String} {domain domainIdx : ℤ}
    {setting : ℚ} (hw : Kept w) :
    wp (PlatformService.writeControl c name domain domainIdx setting)
      (fun _ => PassedAsWriter c w) (fun _ => PassedAsWriter c w) w := by
  have hinactive : ∀ {w' : World}, Within (ClosingEffect c) w false w' →
      PassedAsWriter c w w' := by
    intro w' h
    refine .inl (h.steps.invariant (I := fun w' => w'.accesses = w.accesses) rfl
      (fun _ _ _ h => h) fun w'' e h he _ => ?_)
    cases e <;> first | exact he.elim | exact h
  have hwrite : ∀ {w' : World}, Within (WriteEffect w c) w false w' → PassedAsWriter c w w' :=
    fun h => .inl (writeEffect_lock h.steps).1
  rw [PlatformService.writeControl, wp_bind]
  refine PlatformService.within_checkClientActive (A := ClosingEffect c)
    (.refl hw.isFileActive hw.sane) (fun _ => ⟨trivial, fun _ => rfl⟩) (fun hact => ?_)
    fun w' _ hw' => ?_
  · obtain ⟨s, pi, hs, -, -⟩ := ActiveSessions.active_iff.mp hact
    rw [if_pos rfl, wp_bind, ActiveSessions.getControls, ActiveSessions.wp_getMember hs, wp_ite]
    refine ⟨fun _ => ?_, fun _ => .inl rfl⟩
    rw [wp_bind]
    refine PlatformService.within_writeMode (A := WriteEffect w c)
      (.refl hw.isFileActive hw.sane) hact (fun _ he => he) (fun w' hw' hwritten => ?_)
      fun _ _ => hwrite
    -- the lock is now held by the writer
    have hlock : w.controlLock = none ∨ w.controlLock = some (w.writerOf c) := by
      rcases (writeEffect_lock hw'.steps).2 with h | h
      · exact .inr (h ▸ hwritten.controlLock)
      · exact .inl h
    have hdone : ∀ {w'' : World}, w''.controlLock = w'.controlLock → PassedAsWriter c w w'' :=
      fun h => .inr ⟨hlock, h.trans hwritten.controlLock⟩
    rw [wp_bind, Pio.writeControl, wp_bind, wp_modify, wp_bind, wp_get, wp_ite]
    refine ⟨fun _ => hdone rfl, fun _ => ?_⟩
    rw [wp_set]
    exact hdone rfl
  · rw [if_neg (by simp)]
    exact hinactive hw'

theorem Owned.singleWriter {w : World} (hw : Kept w) (h : Owned w) : SingleWriter w := by
  refine ⟨h, fun o c name domain domainIdx setting hne => ?_⟩
  have hkept : Kept (w.withOutcomes o) :=
    ⟨⟨hw.sane.profiles, hw.sane.servers⟩, hw.isFileActive, hw.recorded.1, hw.recorded.2⟩
  have hrun : wp (Call.writeControl c name domain domainIdx setting).run
      (fun _ => PassedAsWriter c (w.withOutcomes o)) (fun _ => PassedAsWriter c (w.withOutcomes o))
      (w.withOutcomes o) := by
    rw [Call.run, wp_map]
    exact writeControl_owner hkept
  exact (wp_final.mp hrun).resolve_left hne

/-- **A single writer.** In every run that closes the session of the owner of the control lock only
while that session records every server started under the lock, each party that can change a
control belongs to the owner of the lock. -/
theorem singleWriter_of_reachable {w₀ w : World} (hw₀ : Fresh w₀)
    (h : service.ReachableIf (fun w a => a.isWriterAction = true ∧ ClosesCovered w a) w₀ w) :
    SingleWriter w := by
  refine Owned.singleWriter (kept_of_reachable hw₀ h) ?_
  refine h.invariant_of (fun t ht => kept_of_reachable hw₀ ht) ?_ ?_
  · intro v server hv
    rw [hw₀.servers] at hv
    cases hv
  · rintro t a t' hkept howned ⟨ha, hC⟩ hst
    cases a with
    | call o r => exact howned.call hkept ha hC hst
    | restart o => cases ha
    | _ => exact howned.around (around_spec rfl hst)

/-! ### The session leader and its child -/

/-- The child has opened a session. -/
def childOpened : World := leaderAndChild.afterCall (.succeed none) (.openSession "user" 11)

/-- The child has started a batch server that may write controls. -/
def childStarted : World :=
  childOpened.afterCall (.succeed (some (100, ⟨0, 0, 5, 1, true⟩)))
    (.startBatch 11 [] [(0, 0, "CONTROL")])

theorem singleWriter_childStarted :
    childStarted.servers.lookup 100 = some ⟨11, [], [(0, 0, "CONTROL")], some 10⟩ ∧
      SingleWriter childStarted := by
  have hfresh : Fresh leaderAndChild := World.fresh_small _ _
  have hopen : service.step leaderAndChild _ childOpened := step_call rfl rfl
  have hstart : service.step childOpened _ childStarted := step_call (by decide) (by decide)
  refine ⟨by decide, singleWriter_of_reachable hfresh
    (.head ⟨rfl, ?_⟩ hopen (.head ⟨rfl, ?_⟩ hstart (.refl _)))⟩
  · rintro p ⟨-, hstale⟩
    exact absurd hstale (by decide)
  · rintro p ⟨-, hact⟩
    exact absurd hact (by decide)

/-- The child starts a batch server, and the session of the leader is closed. -/
def leaderCloses : List Action :=
  [.call (.succeed none) (.openSession "user" 11),
    .call (.succeed (some (100, ⟨0, 0, 5, 1, true⟩))) (.startBatch 11 [] [(0, 0, "CONTROL")]),
    .call (.succeed none) (.closeSession 10 10)]

/-- A batch server that was started under the lock of the session leader keeps running when the
session of the leader has been closed. -/
theorem server_outlives_lock : ¬ ∀ w₀ w, Fresh w₀ →
    service.ReachableIf (fun _ a => a.isWriterAction = true) w₀ w → SingleWriter w := by
  intro hall
  have hrun : (Lts.run World.next leaderAndChild leaderCloses).map
      (fun w => (w.controlLock, w.servers.lookup 100)) =
        some (none, some ⟨11, [], [(0, 0, "CONTROL")], some 10⟩) := by decide
  obtain ⟨w, hw, heq⟩ := Option.map_eq_some_iff.mp hrun
  rw [Prod.mk.injEq] at heq
  have hreach := Lts.reachableIf_of_run (C := fun _ a => a.isWriterAction = true) hw
    fun _ a ha => by
      simp only [leaderCloses, List.mem_cons, List.not_mem_nil, or_false] at ha
      rcases ha with rfl | rfl | rfl <;> rfl
  exact ((hall _ w (World.fresh_small _ _) hreach).servers 100 _ heq.2 (by simp)).1 heq.1

end Geopm
