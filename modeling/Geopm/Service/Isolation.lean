import Geopm.Service.Runs

/-!
# Isolation of the clients

* `Effect.subject` : the client whose session, session file or lock an effect changes;
* `Action.concerns` : the actions made for a client, the write mode of a process whose leader
  it is, the sweeps over all sessions, and a restart;
* `isolated_of_reachable` : no other action touches what belongs to the client.
-/

namespace Geopm

/-- The client whose session, session file or lock an effect changes. -/
def Effect.subject (w : World) : Effect → Option Pid
  | .discard p | .close p _ | .drop p _ | .openSession p _ _ | .count p _ _ | .watch p _ _
  | .startServer p _ _ _ _ _ | .stopServer p _ _ | .forgetServer p _ _ | .beginProfile p _ _ _
  | .recordProfile p _ _ | .endProfile p _ _ | .release p _ => some p
  | .unlockProfiler => w.profilerLock
  | _ => .none

/-- The action is made for `p`, or may open or close its session all the same. -/
def Action.concerns (w : World) (p : Pid) : Action → Prop
  | .call _ r => match r with
    | .openSession _ c | .closeSession c _ | .closeSessionAdmin c _ | .stopBatch c _
    | .readSignal c _ _ _ | .startProfile _ c _ | .stopProfile c _ | .checkClient c => c = p
    -- write mode opens the session of the leader
    | .startBatch c _ _ | .writeControl c _ _ _ _ | .restoreControl c =>
      c = p ∨ w.leaderOf c = some p
    | .popProfileRegionNames arg _ => arg = .pid p
    | .closeAllSessions | .closeInactiveClients => True
    | _ => False
  | .restart _ => True
  | _ => False

/-- What belongs to `p` is the same in `w'` as in `w`. -/
structure Isolated (p : Pid) (w w' : World) : Prop where
  session : w'.sessions.lookup p = w.sessions.lookup p
  file : w'.sessionFiles.lookup p = w.sessionFiles.lookup p
  controlLock : w.controlLock = some p →
    w'.controlLock = some p ∧ w'.saveFiles = w.saveFiles
  profilerLock : w.profilerLock = some p → w'.profilerLock = some p

variable {w₀ w w' : World} {p c : Pid} {e : Effect} {A : Effect → Prop}

theorem Isolated.trans (h : Isolated p w₀ w) (h' : Isolated p w w') : Isolated p w₀ w' :=
  ⟨h'.1.trans h.1, h'.2.trans h.2, fun hc => (h'.3 (h.3 hc).1).imp_right (·.trans (h.3 hc).2),
    h'.4 ∘ h.4⟩

/-! ### Effects -/

theorem Isolated.apply (h : Isolated p w₀ w) (hguard : Effect.guard w e)
    (he : e.subject w₀ ≠ some p) : Isolated p w₀ (Effect.apply w e) := by
  obtain ⟨hs, hf, hc, hp⟩ := h
  -- the entries of another client
  have hinsert : ∀ {ν : Type} {d : Dict Pid ν} {q : Pid} {x : ν}, some q ≠ some p →
      (d.insert q x).lookup p = d.lookup p := fun hq =>
    AList.lookup_insert_ne fun h => hq (congrArg some h.symm)
  have herase : ∀ {ν : Type} {d : Dict Pid ν} {q : Pid}, some q ≠ some p →
      (d.erase q).lookup p = d.lookup p := fun hq =>
    AList.lookup_erase_ne fun h => hq (congrArg some h.symm)
  cases e with
  | discard q => exact ⟨hs, (herase he).trans hf, hc, hp⟩
  | close q dir =>
    refine ⟨(herase he).trans hs, (herase he).trans hf, fun h => ?_, fun h => ?_⟩
    · have hlock : w.controlLock ≠ some q := (hc h).1.trans_ne he.symm
      exact ⟨(if_neg hlock).trans (hc h).1, (if_neg hlock).trans (hc h).2⟩
    · exact (if_neg ((hp h).trans_ne he.symm)).trans (hp h)
  | drop q lock => exact ⟨(herase he).trans hs, (herase he).trans hf, hc, hp⟩
  | setAside dir => exact ⟨hs, hf, fun h => absurd (hguard.symm.trans (hc h).1) (by simp), hp⟩
  | take q => exact ⟨hs, hf, fun h => absurd (hguard.1.symm.trans (hc h).1) (by simp), hp⟩
  | lockProfiler q => exact ⟨hs, hf, hc, fun h => absurd (hguard.symm.trans (hp h)) (by simp)⟩
  | unlockProfiler => exact ⟨hs, hf, hc, fun h => absurd h he⟩
  | beginProfile q s uid name => exact ⟨(hinsert he).trans hs, hf, hc, hp⟩
  | recordProfile q s shmem => exact ⟨hs, (hinsert he).trans hf, hc, hp⟩
  | release q dir => exact ⟨hs, hf, fun h => absurd (hguard.2.symm.trans (hc h).1) he, hp⟩
  | openSession | count | watch | startServer | stopServer | forgetServer | endProfile =>
    exact ⟨(hinsert he).trans hs, (hinsert he).trans hf, hc, hp⟩
  | _ => exact ⟨hs, hf, hc, hp⟩

theorem WriteEffect.subject (h : WriteEffect w c e) (hp : e.subject w = some p) :
    w.leaderOf c = some p := by
  cases e with
  | setAside | take => cases hp
  | _ => simp_all [WriteEffect, Effect.subject]

theorem OnClient.subject {X : Prop} (h : OnClient w c A e) (hp : e.subject w = some p)
    (hA : A e → c = p ∨ X) : c = p ∨ X := by
  rcases h with ⟨-, rfl | ⟨dir, rfl⟩⟩ | ⟨-, he⟩
  · exact .inl (Option.some.inj hp)
  · exact .inl (Option.some.inj hp)
  · exact hA he

/-- A call concerns the clients whose sessions and locks its effects change. -/
theorem concerns_of_effects {o : Outcomes} {r : Call} (he : r.effects w e)
    (hp : e.subject w = some p) : (Action.call o r).concerns w p := by
  cases r with
  | startBatch c signals controls =>
    rw [Call.effects] at he
    refine he.subject hp fun h => ?_
    rcases h.2 with ⟨-, h⟩ | h
    · exact .inr (h.subject hp)
    · cases e <;> simp_all [StartEffect, Effect.subject]
  | writeControl c name domain domainIdx setting =>
    rw [Call.effects] at he
    refine he.subject hp ?_
    rintro ⟨-, h | ⟨s, rfl⟩ | ⟨st, rfl⟩⟩
    · exact .inr (h.subject hp)
    · cases hp
    · cases hp
  | restoreControl c =>
    rw [Call.effects] at he
    refine he.subject hp ?_
    rintro (h | ⟨st, rfl⟩)
    · exact .inr (h.subject hp)
    · cases hp
  | popProfileRegionNames arg name =>
    obtain ⟨⟨q, rfl, hq⟩, rfl⟩ := he
    exact congrArg PidArg.pid (Option.some.inj (hq.symm.trans hp))
  | closeAllSessions | closeInactiveClients => trivial
  | _ =>
    -- every other call names its client
    cases e <;> simp_all [Call.effects, Effect.subject, Action.concerns, OnClient, OpenEffect,
      CloseEffect, StopEffect, ProfileEffect] <;> tauto

/-! ### Runs -/

theorem Isolated.step {a : Action} (hkept : Kept w) (ha : ¬ a.concerns w p)
    (hst : service.step w a w') : Isolated p w w' := by
  cases a with
  | call o r =>
    obtain ⟨-, -, -, hwithin⟩ := call_spec hkept hst
    have hstart : Isolated p w (w.withOutcomes o) := ⟨rfl, rfl, (⟨·, rfl⟩), id⟩
    refine hwithin.steps.invariant (I := Isolated p w) hstart
      (fun _ _ _ h => ⟨h.1, h.2, h.3, h.4⟩) fun u e h he hguard => h.apply hguard fun hp => ha ?_
    have hr : (Action.call o r).concerns (w.withOutcomes o) p := concerns_of_effects he hp
    cases r <;> exact hr
  | restart o => exact absurd trivial ha
  | _ =>
    obtain ⟨procs, servers, settings, users, now, rfl⟩ := (around_spec rfl hst).rest
    exact ⟨rfl, rfl, (⟨·, rfl⟩), id⟩

/-- **Isolation.** In every run of actions that do not concern a client, its session, its session
file, its locks and the settings saved for it stay as they are. -/
theorem isolated_of_reachable (hw₀ : Fresh w₀) (hw : service.Reachable w₀ w)
    (h : service.ReachableIf (fun w a => ¬ a.concerns w p) w w') : Isolated p w w' := by
  refine (h.invariant (I := fun t => Kept t ∧ Isolated p w t)
    ⟨kept_of_reachable hw₀ hw, rfl, rfl, (⟨·, rfl⟩), id⟩ ?_).2
  rintro t a t' ⟨hkept, ht⟩ ha hst
  exact ⟨hkept.step hst, ht.trans (.step hkept ha hst)⟩

/-- The leader opens a session, and then its child does. -/
theorem isolated_leader :
    let opened := leaderAndChild.afterCall (.succeed none) (.openSession "user" 10)
    Isolated 10 opened (opened.afterCall (.succeed none) (.openSession "user" 11)) := by
  intro opened
  have hopen : service.step leaderAndChild _ opened := step_call rfl rfl
  have hchild : service.step opened _ (opened.afterCall (.succeed none) (.openSession "user" 11)) :=
    step_call rfl rfl
  refine isolated_of_reachable (World.fresh_small _ _) (.head trivial hopen (.refl _))
    (.head ?_ hchild (.refl _))
  simp [Action.concerns]

end Geopm
