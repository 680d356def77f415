import Geopm.Service.SessionRules
import Geopm.Service.Step

/-!
# What the service can do to its state

Each operation of the service is a sequence of effects.  An effect changes everything that must
change together: closing a session, for instance, stops its batch server, removes its record,
restores the controls and frees the locks.

* `Effect` : the effects, with `Effect.guard` (when one can be taken), `Effect.apply` (the state
  after it) and `Effect.logs` (the warnings it writes);
* `Steps A w w'` : effects lead from `w` to `w'`, each of them in `A`;
* `Steps.invariant` : what every effect of `A` keeps, a sequence of them keeps.

Invariants are proved about effects; `Refinement` carries them over to the methods.
-/

namespace Geopm

namespace World

/-- The batch server recorded in the session of `p`. -/
def batchOf (w : World) (p : Pid) : Option Pid := (w.sessions.lookup p).bind Session.batchServer

/-- A table without the entry of a PID, if there is one. -/
def without {ν : Type} (d : Dict Pid ν) : Option Pid → Dict Pid ν
  | none => d
  | some v => d.erase v

/-- The PIDs of `_batch_subp` without one. -/
def subpWithout (w : World) : Option Pid → Finset Pid
  | none => w.batchSubp
  | some v => w.batchSubp.erase v

/-- The settings after `restore_control_dir`. -/
def restored (w : World) : Settings :=
  match w.saveFiles, w.outcomes.restoreFails with
  | none, _ => w.settings
  | some saved, none => saved
  | some _, some partly => partly

/-- The renamed directories after `_close_session_write`, where `dir` is the new name. -/
def asideAfter (w : World) (dir : String) : List (String × Settings) :=
  match w.saveFiles, w.outcomes.restoreFails with
  | none, _ => w.aside
  | some _, none => w.aside.filter fun d => d.1 ≠ dir
  | some saved, some _ => (dir, saved) :: w.aside

/-- `_close_session_write`: the controls are restored, or the directory is renamed, and the control
lock is free. -/
@[simps -fullyApplied] def released (w : World) (dir : String) : World :=
  { w with
    settings := w.restored
    saveFiles := none
    aside := w.asideAfter dir
    controlLock := none }

/-- The batch server of a session ends, and the session disappears. -/
@[simps -fullyApplied] def removed (w : World) (p : Pid) : World :=
  { w with
    procs := without w.procs (w.batchOf p)
    servers := without w.servers (w.batchOf p)
    batchSubp := w.subpWithout (w.batchOf p)
    sessions := w.sessions.erase p
    sessionFiles := w.sessionFiles.erase p
    profiles := w.profilesLeft p
    shmem := w.shmemLeft p }

/-- The locks of a PID are released. -/
@[simps -fullyApplied] def unlocked (w : World) (p : Pid) (dir : String) : World :=
  { w with
    settings := if w.controlLock = some p then w.restored else w.settings
    saveFiles := if w.controlLock = some p then none else w.saveFiles
    aside := if w.controlLock = some p then w.asideAfter dir else w.aside
    controlLock := if w.controlLock = some p then none else w.controlLock
    profilerLock := if w.profilerLock = some p then none else w.profilerLock }

/-- The new name of `SAVE_FILES` and the settings in it. -/
@[simps -fullyApplied] def setAside (w : World) (dir : String) : World :=
  { w with
    saveFiles := none
    aside := match w.saveFiles with
      | none => w.aside
      | some saved => (dir, saved) :: w.aside }

/-- `q` takes the write lock: the settings are saved. -/
@[simps -fullyApplied] def taken (w : World) (q : Pid) : World :=
  { w with saveFiles := some w.settings, controlLock := some q }

/-- A batch server has been started for `c`; its record is not yet made. -/
@[simps -fullyApplied] def started (w : World) (c v : Pid) (proc : Proc)
    (signalConfig controlConfig : List Request) : World :=
  { w with
    procs := w.procs.insert v proc
    servers := w.servers.insert v ⟨c, signalConfig, controlConfig, w.controlLock⟩
    batchSubp := insert v w.batchSubp
    accesses := w.accesses ++ batchAccesses signalConfig controlConfig }

/-- A batch server has ended before it read its configuration. -/
@[simps -fullyApplied] def broken (w : World) (v : Pid) (proc : Proc)
    (signalConfig controlConfig : List Request) : World :=
  { w with
    procs := w.procs.insert v proc
    batchSubp := insert v w.batchSubp
    accesses := w.accesses ++ batchAccesses signalConfig controlConfig }

/-- `_stop_batch_server`: a child is waited for; another process ends when the signal could be
sent. -/
@[simps -fullyApplied] def stopped (w : World) (v : Pid) : World :=
  { w with
    procs := if v ∈ w.batchSubp then w.procs.erase v else w.procs
    servers := if v ∈ w.batchSubp ∨ w.outcomes.stopFails v = false then w.servers.erase v
      else w.servers
    batchSubp := w.batchSubp.erase v }

/-- The running batch servers change. -/
@[simps -fullyApplied] def withServers (w : World) (servers : Dict Pid BatchServer) : World :=
  { w with servers := servers }

/-- The batch server `v` has ended, and nothing of it is left. -/
@[simps -fullyApplied] def ended (w : World) (v : Pid) : World :=
  { w with
    procs := w.procs.erase v
    servers := w.servers.erase v
    batchSubp := w.batchSubp.erase v }

/-- The process `v` has been killed. -/
@[simps -fullyApplied] def killed (w : World) (v : Pid) : World :=
  { w with procs := w.procs.erase v, servers := w.servers.erase v }

/-- Something was passed to the platform. -/
@[simps -fullyApplied] def accessed (w : World) (a : Access) : World :=
  { w with accesses := w.accesses ++ [a] }

/-- The settings change. -/
@[simps -fullyApplied] def withSettings (w : World) (st : Settings) : World :=
  { w with settings := st }

/-- The profiler lock changes. -/
@[simps -fullyApplied] def withProfilerLock (w : World) (p : Option Pid) : World :=
  { w with profilerLock := p }

/-- The access lists change. -/
@[simps -fullyApplied] def withConfig (w : World) (config : Dict String GroupFiles) : World :=
  { w with config := config }

/-- A lock context is entered or left. -/
@[simps -fullyApplied] def setActive (w : World) (b : Bool) : World := { w with isFileActive := b }

/-- A lock context was entered while another one was open. -/
@[simps -fullyApplied] def countNested (w : World) : World := { w with nested := w.nested + 1 }

end World

/-- The names in a batch configuration are in an access list. -/
def Granted (config : List Request) (allowed : List String) : Prop :=
  ∀ r ∈ config, r.2.2 ∈ allowed

/-- An access is one that the record of a session allows. -/
def Access.allowed (s : Session) : Access → Prop
  | .readSignal name => name ∈ s.signals
  | .writeControl name => name ∈ s.controls
  | .batchSignal name => name ∈ s.signals
  | .batchControl name => name ∈ s.controls

/-- One thing that an operation does to the state. -/
inductive Effect where
  /-- Nothing but the journal changes. -/
  | none
  /-- The file of a client that is not tracked is renamed. -/
  | discard (p : Pid)
  /-- A session is closed completely. -/
  | close (p : Pid) (dir : String)
  /-- A session is closed inside a lock context: the locks cannot be released. -/
  | drop (p : Pid) (lock : Option Pid)
  /-- A session is opened; `user` is the name under which the access lists were looked up. -/
  | openSession (p : Pid) (user : String) (s : Session)
  /-- The reference count of a session changes. -/
  | count (p : Pid) (s : Session) (referenceCount : ℤ)
  /-- A session that was read from a file is watched. -/
  | watch (p : Pid) (s : Session) (watchId : ℤ)
  /-- A `SAVE_FILES` directory that no session owns is renamed. -/
  | setAside (dir : String)
  /-- The write lock is taken. -/
  | take (q : Pid)
  /-- A batch server is started and recorded. -/
  | startServer (c : Pid) (s : Session) (v : Pid) (proc : Proc) (signals controls : List Request)
  /-- A batch server is started, but its pipe breaks. -/
  | startBroken (c : Pid) (s : Session) (v : Pid) (proc : Proc) (signals controls : List Request)
  /-- A batch server is stopped and its record removed. -/
  | stopServer (c : Pid) (s : Session) (v : Pid)
  /-- The record of a batch server is removed. -/
  | forgetServer (c : Pid) (s : Session) (v : Pid)
  /-- A signal is read or a control written for a client. -/
  | access (c : Pid) (s : Session) (a : Access)
  /-- The settings of the platform change. -/
  | setSettings (st : Settings)
  /-- The profiler lock is taken. -/
  | lockProfiler (p : Pid)
  /-- The profiler lock is released. -/
  | unlockProfiler
  /-- A profile begins, in memory. -/
  | beginProfile (p : Pid) (s : Session) (uid : ℕ) (name : String)
  /-- The record log is created and the session file written. -/
  | recordProfile (p : Pid) (s : Session) (shmem : Finset ProfPath)
  /-- A profile ends. -/
  | endProfile (p : Pid) (s : Session) (name : String)
  /-- The access lists change. -/
  | setConfig (config : Dict String GroupFiles)
  /-- The write lock of a PID without a session is released. -/
  | release (p : Pid) (dir : String)

namespace Effect

/-- When an effect can be taken. -/
def guard (w : World) : Effect → Prop
  | none => True
  | discard p => p ∉ w.sessions
  | close _ _ => True
  | drop p lock => w.stale p = true ∧ w.controlLock = lock
  | openSession p user s => p ∉ w.sessions ∧ ∃ pi signals controls watchId,
      w.procs.lookup p = some pi ∧
      s = ActiveSessions.newSession p pi signals controls watchId ∧
      AccessLists.getUserAccess user p w = .ok (signals, controls) w
  | count p s _ => w.sessions.lookup p = some s ∧ w.active p = true
  | watch p s _ => w.sessions.lookup p = some s
  | setAside _ => w.controlLock = Option.none
  | take q => w.controlLock = Option.none ∧ w.saveFiles = Option.none ∧ w.active q = true
  | startServer c s v proc signals controls =>
      w.sessions.lookup c = some s ∧ w.active c = true ∧ s.batchServer = Option.none ∧
      v ∉ w.procs ∧ proc.createTime = w.now ∧ Granted signals s.signals ∧
      Granted controls s.controls ∧ (controls ≠ [] → w.controlLock ≠ Option.none)
  | startBroken c s v proc signals controls =>
      w.sessions.lookup c = some s ∧ w.active c = true ∧
      v ∉ w.procs ∧ proc.createTime = w.now ∧ Granted signals s.signals ∧
      Granted controls s.controls
  | stopServer c s v =>
      w.sessions.lookup c = some s ∧ w.active c = true ∧ s.batchServer = some v
  | forgetServer c s v =>
      w.sessions.lookup c = some s ∧ w.active c = true ∧ s.batchServer = some v
  | access c s a => w.sessions.lookup c = some s ∧ w.active c = true ∧ a.allowed s
  | setSettings _ => w.controlLock ≠ Option.none
  | lockProfiler _ => w.profilerLock = Option.none
  | unlockProfiler => True
  | beginProfile p s _ _ =>
      w.sessions.lookup p = some s ∧ w.active p = true ∧ s.profileName = Option.none
  | recordProfile p s _ => w.sessions.lookup p = some s ∧ w.active p = true
  | endProfile p s name =>
      w.sessions.lookup p = some s ∧ w.active p = true ∧ s.profileName = some name
  | setConfig _ => True
  | release p _ => p ∉ w.sessions ∧ w.controlLock = some p

/-- The state after an effect, up to the journal. -/
def apply (w : World) : Effect → World
  | none => w
  | discard p => w.discardFile p
  | close p dir => (w.removed p).unlocked p dir
  | drop p _ => (w.removed p).countNested
  | openSession p _ s => w.record p s
  | count p s referenceCount => w.record p { s with referenceCount := referenceCount }
  | watch p s watchId => w.record p { s with watchId := watchId }
  | setAside dir => w.setAside dir
  | take q => w.taken q
  | startServer c s v proc signals controls =>
      (w.started c v proc signals controls).record c { s with batchServer := some v }
  | startBroken _ _ v proc signals controls => w.broken v proc signals controls
  | stopServer c s v => (w.stopped v).record c { s with batchServer := Option.none }
  | forgetServer c s _ => w.record c { s with batchServer := Option.none }
  | access _ _ a => w.accessed a
  | setSettings st => w.withSettings st
  | lockProfiler p => w.withProfilerLock (some p)
  | unlockProfiler => w.withProfilerLock Option.none
  | beginProfile p s uid name => w.beginProfile p s uid name
  | recordProfile p s shmem =>
      (w.withFiles (w.sessionFiles.insert p ⟨s.toJson, w.now⟩)).withShmem shmem
  | endProfile p s name => (w.endProfile p s name).withFiles
      (w.sessionFiles.insert p ⟨Session.toJson { s with profileName := Option.none }, w.now⟩)
  | setConfig config => w.withConfig config
  | release _ dir => w.released dir

/-- The warning of `_close_session_write` when the controls are not restored. -/
def releaseLogs (w : World) (p : Pid) (dir : String) : List String :=
  match w.saveFiles, w.outcomes.restoreFails with
  | .none, _ => [PlatformService.noSaveDir p]
  | some _, .none => []
  | some _, some _ => [PlatformService.notRestored p dir]

/-- The warnings that an effect writes when the controls are not restored. -/
def logs (w : World) : Effect → List String
  | close p dir => if w.controlLock = some p then releaseLogs w p dir else []
  | release p dir => releaseLogs w p dir
  | _ => []

end Effect

/-- One effect of `A` is taken, or none; the journal changes, and a lock context may be entered or
left. -/
def MicroStep (A : Effect → Prop) (w w' : World) : Prop :=
  ∃ e j b, (A e ∨ e = .none) ∧ Effect.guard w e ∧ w.journal.Logs j (Effect.logs w e) ∧
    w' = ((Effect.apply w e).quiet j).setActive b

/-- Effects of `A` lead from `w` to `w'`. -/
def Steps (A : Effect → Prop) : World → World → Prop := Relation.ReflTransGen (MicroStep A)

namespace Steps

variable {A B : Effect → Prop} {w w' w'' : World}

theorem refl (w : World) : Steps A w w := Relation.ReflTransGen.refl

theorem tail (h : Steps A w w') (e : Effect) (j : Journal) (b : Bool) (hA : A e ∨ e = .none)
    (hguard : Effect.guard w' e) (hlog : w'.journal.Logs j (Effect.logs w' e)) :
    Steps A w (((Effect.apply w' e).quiet j).setActive b) :=
  Relation.ReflTransGen.tail h ⟨e, j, b, hA, hguard, hlog, rfl⟩

theorem mono (hAB : ∀ e, A e → B e) (h : Steps A w w') : Steps B w w' :=
  Relation.ReflTransGen.mono
    (fun _ _ ⟨e, j, b, hA, hguard, hlog, heq⟩ =>
      ⟨e, j, b, hA.imp_left (hAB e), hguard, hlog, heq⟩) _ _ h

/-- What every effect of `A` keeps, a sequence of them keeps. -/
theorem induct {I : World → Prop} (h : Steps A w w') (hw : I w)
    (hstep : ∀ w e j b, I w → A e ∨ e = .none → Effect.guard w e →
      w.journal.Logs j (Effect.logs w e) → I (((Effect.apply w e).quiet j).setActive b)) :
    I w' := by
  induction h with
  | refl => exact hw
  | tail _ hst ih =>
    obtain ⟨e, j, b, hA, hguard, hlog, rfl⟩ := hst
    exact hstep _ e j b ih hA hguard hlog

/-- What does not depend on the journal and on open lock contexts, and is kept by every effect of
`A`, is kept by a sequence of them. -/
theorem invariant {I : World → Prop} (h : Steps A w w') (hw : I w)
    (hquiet : ∀ w j b, I w → I ((w.quiet j).setActive b))
    (hstep : ∀ w e, I w → A e → Effect.guard w e → I (Effect.apply w e)) : I w' := by
  refine h.induct hw fun w e j b hI hA hguard _ => hquiet _ j b ?_
  rcases hA with hA | rfl
  · exact hstep _ e hI hA hguard
  · exact hI

end Steps

/-! ### Profiles -/

section ProfilesOk

variable {w : World} {p : Pid} {s : Session} {w' : World}

theorem ProfilesOk.of_eq (h : ProfilesOk w) (hs : w'.sessions = w.sessions)
    (hp : w'.profiles = w.profiles) : ProfilesOk w' := by
  unfold ProfilesOk at *
  rw [hs, hp]
  exact h

theorem ProfilesOk.record (h : ProfilesOk w)
    (hs : w'.sessions = w.sessions.insert p s) (hp : w'.profiles = w.profiles)
    (hname : ∀ name, s.profileName = some name →
      ∃ s', w.sessions.lookup p = some s' ∧ s'.profileName = some name) : ProfilesOk w' := by
  intro q t name ht hn
  rw [hs, Dict.lookup_insert_eq] at ht
  rw [hp]
  split_ifs at ht with hq
  · cases ht
    obtain ⟨s', hs', hn'⟩ := hname name hn
    exact hq ▸ h p s' name hs' hn'
  · exact h q t name ht hn

/-- The other sessions stay entered in `_profiles` when a PID is taken out. -/
theorem mem_profilesWithout {name name' : String} {q : Pid} {pids : Finset Pid}
    (hpids : w.profiles.lookup name' = some pids) (hq : q ∈ pids) (hne : q ≠ p) :
    ∃ pids, (w.profilesWithout name p).lookup name' = some pids ∧ q ∈ pids := by
  rw [ActiveSessions.lookup_profilesWithout]
  split_ifs with hname hempty
  · subst hname
    rw [hpids, Option.getD_some] at hempty
    have hmem : q ∈ pids.erase p := Finset.mem_erase.mpr ⟨hne, hq⟩
    rw [hempty] at hmem
    cases hmem
  · subst hname
    exact ⟨_, rfl, by rw [hpids]; exact Finset.mem_erase.mpr ⟨hne, hq⟩⟩
  · exact ⟨pids, hpids, hq⟩

theorem ProfilesOk.remove (h : ProfilesOk w)
    (hs : w'.sessions = w.sessions.erase p) (hp : w'.profiles = w.profilesLeft p) :
    ProfilesOk w' := by
  intro q t name ht hn
  rw [hs, Dict.lookup_erase_eq] at ht
  split_ifs at ht with hq
  obtain ⟨pids, hpids, hmem⟩ := h q t name ht hn
  rw [hp, World.profilesLeft]
  split
  · exact mem_profilesWithout hpids hmem hq
  · exact ⟨pids, hpids, hmem⟩

theorem ProfilesOk.endProfile {name : String} (h : ProfilesOk w)
    (hs : w'.sessions = w.sessions.insert p { s with profileName := none })
    (hp : w'.profiles = w.profilesWithout name p) : ProfilesOk w' := by
  intro q t name' ht hn
  rw [hs, Dict.lookup_insert_eq] at ht
  split_ifs at ht with hq
  · cases ht
    cases hn
  · obtain ⟨pids, hpids, hmem⟩ := h q t name' ht hn
    rw [hp]
    exact mem_profilesWithout hpids hmem hq

theorem ProfilesOk.beginProfile {uid : ℕ} {name : String} (h : ProfilesOk w) :
    ProfilesOk (w.beginProfile p s uid name) := by
  intro q t name' ht hn
  simp only [World.beginProfile_sessions, World.beginProfile_profiles,
    Dict.lookup_insert_eq] at ht ⊢
  by_cases hq : q = p
  · rw [if_pos hq] at ht
    cases ht
    rw [if_pos (Option.some.inj hn).symm]
    exact ⟨_, rfl, hq ▸ Finset.mem_insert_self _ _⟩
  · rw [if_neg hq] at ht
    obtain ⟨pids, hpids, hmem⟩ := h q t name' ht hn
    split_ifs with hname
    · subst hname
      exact ⟨_, rfl, by rw [hpids]; exact Finset.mem_insert_of_mem hmem⟩
    · exact ⟨pids, hpids, hmem⟩

/-- Every effect keeps `_profiles` consistent. -/
theorem ProfilesOk.apply {e : Effect} (h : ProfilesOk w) (hguard : Effect.guard w e) :
    ProfilesOk (Effect.apply w e) := by
  cases e with
  | close p dir => exact h.remove rfl rfl
  | drop p lock => exact h.remove rfl rfl
  | openSession p user s =>
    obtain ⟨-, pi, _, _, _, -, rfl, -⟩ := hguard
    exact h.record rfl rfl fun _ hn => by cases hn
  | count p s referenceCount => exact h.record rfl rfl fun _ hn => ⟨s, hguard.1, hn⟩
  | watch p s watchId => exact h.record rfl rfl fun _ hn => ⟨s, hguard, hn⟩
  | startServer c s v proc signals controls =>
    exact h.record rfl rfl fun _ hn => ⟨s, hguard.1, hn⟩
  | stopServer c s v => exact h.record rfl rfl fun _ hn => ⟨s, hguard.1, hn⟩
  | forgetServer c s v => exact h.record rfl rfl fun _ hn => ⟨s, hguard.1, hn⟩
  | beginProfile p s uid name => exact h.beginProfile
  | endProfile p s name => exact h.endProfile rfl rfl
  | _ => exact h.of_eq rfl rfl

end ProfilesOk

/-! ### Processes -/

/-- Running batch servers are processes. -/
def ServersOk (w : World) : Prop := ∀ v, v ∈ w.servers → v ∈ w.procs

theorem mem_without {ν : Type} {d : Dict Pid ν} {o : Option Pid} {v : Pid} :
    v ∈ World.without d o ↔ o ≠ some v ∧ v ∈ d := by
  cases o with
  | none => simp [World.without]
  | some u => simp [World.without, eq_comm]

theorem lookup_without {ν : Type} {d : Dict Pid ν} {o : Option Pid} {v : Pid} {x : ν} :
    (World.without d o).lookup v = some x ↔ o ≠ some v ∧ d.lookup v = some x := by
  cases o with
  | none => simp [World.without]
  | some u =>
    rw [World.without, Dict.lookup_erase_eq]
    by_cases hv : v = u
    · simp [hv]
    · simp [hv, Ne.symm hv]

theorem lookup_stopped {w : World} {u v : Pid} {server : BatchServer}
    (h : (w.stopped v).servers.lookup u = some server) : w.servers.lookup u = some server := by
  rw [World.stopped_servers] at h
  split_ifs at h
  · rw [Dict.lookup_erase_eq] at h
    split_ifs at h
    exact h
  · exact h

theorem batchOf_record (w : World) (p : Pid) (s : Session) :
    (w.record p s).batchOf p = s.batchServer := by
  rw [World.batchOf, World.record_sessions, AList.lookup_insert, Option.bind_some]

theorem batchOf_of_lookup {w : World} {p : Pid} {s : Session} (h : w.sessions.lookup p = some s) :
    w.batchOf p = s.batchServer := by
  rw [World.batchOf, h, Option.bind_some]

theorem ServersOk.apply {w : World} {e : Effect} (h : ServersOk w) :
    ServersOk (Effect.apply w e) := by
  have hremoved : ∀ p, ServersOk (w.removed p) := by
    intro p v hv
    rw [World.removed_servers, mem_without] at hv
    rw [World.removed_procs, mem_without]
    exact ⟨hv.1, h v hv.2⟩
  cases e with
  | close p dir => exact hremoved p
  | drop p lock => exact hremoved p
  | startServer c s v proc signals controls =>
    intro u hu
    change u ∈ w.servers.insert v _ at hu
    change u ∈ w.procs.insert v proc
    rw [AList.mem_insert] at hu ⊢
    exact hu.imp_right (h u)
  | startBroken c s v proc signals controls =>
    intro u hu
    exact AList.mem_insert _ |>.mpr (.inr (h u hu))
  | stopServer c s v =>
    intro u hu
    change u ∈ (w.stopped v).servers at hu
    change u ∈ (w.stopped v).procs
    rw [World.stopped_servers] at hu
    rw [World.stopped_procs]
    by_cases hv : v ∈ w.batchSubp
    · rw [if_pos (.inl hv), AList.mem_erase] at hu
      rw [if_pos hv, AList.mem_erase]
      exact ⟨hu.1, h u hu.2⟩
    · rw [if_neg hv]
      split_ifs at hu
      · exact h u (AList.mem_erase.mp hu).2
      · exact h u hu
  | _ => exact h

/-- What the effects of an operation rely on and keep. -/
structure Sane (w : World) : Prop where
  profiles : ProfilesOk w
  servers : ServersOk w

theorem Sane.apply {w : World} {e : Effect} (h : Sane w) (hguard : Effect.guard w e) :
    Sane (Effect.apply w e) :=
  ⟨h.profiles.apply hguard, h.servers.apply⟩

/-- Effects of `A` lead from `w₀` to the state `w`, in which a lock context is open or not. -/
structure Within (A : Effect → Prop) (w₀ : World) (b : Bool) (w : World) : Prop where
  steps : Steps A w₀ w
  isFileActive : w.isFileActive = b
  sane : Sane w

namespace Within

variable {A : Effect → Prop} {w₀ w : World} {b : Bool}

theorem refl (hb : w.isFileActive = b) (h : Sane w) : Within A w b w := ⟨.refl w, hb, h⟩

/-- One more effect. -/
theorem step (h : Within A w₀ b w) {e : Effect} {j : Journal} (hA : A e)
    (hguard : Effect.guard w e) (hlog : w.journal.Logs j (Effect.logs w e)) :
    Within A w₀ b ((Effect.apply w e).quiet j) where
  steps := by
    have heq : (Effect.apply w e).isFileActive = b := by
      rw [← h.isFileActive]
      cases e <;> rfl
    have hst := h.steps.tail e j b (.inl hA) hguard hlog
    rwa [show ((Effect.apply w e).quiet j).setActive b = (Effect.apply w e).quiet j by
      rw [← heq]; rfl] at hst
  isFileActive := by
    rw [← h.isFileActive]
    cases e <;> rfl
  sane := ⟨(h.sane.apply hguard).profiles, (h.sane.apply hguard).servers⟩

theorem step' (h : Within A w₀ b w) {e : Effect} (hA : A e) (hguard : Effect.guard w e)
    (hlog : Effect.logs w e = []) : Within A w₀ b (Effect.apply w e) := by
  have hst := h.step (j := w.journal) hA hguard (hlog ▸ .refl _)
  rwa [show (Effect.apply w e).quiet w.journal = Effect.apply w e by cases e <;> rfl] at hst

theorem quiet (h : Within A w₀ b w) {j : Journal} (hlog : w.journal.Logs j []) :
    Within A w₀ b (w.quiet j) where
  steps := by
    have hst := h.steps.tail .none j b (.inr rfl) trivial hlog
    rwa [show ((Effect.apply w .none).quiet j).setActive b = w.quiet j by
      rw [← h.isFileActive]; rfl] at hst
  isFileActive := h.isFileActive
  sane := ⟨h.sane.profiles, h.sane.servers⟩

theorem mono {B : Effect → Prop} (hAB : ∀ e, A e → B e) (h : Within A w₀ b w) :
    Within B w₀ b w :=
  ⟨h.steps.mono hAB, h.isFileActive, h.sane⟩

theorem setActive (h : Within A w₀ b w) (b' : Bool) : Within A w₀ b' (w.setActive b') where
  steps := h.steps.tail .none w.journal b' (.inr rfl) trivial (.refl _)
  isFileActive := rfl
  sane := ⟨h.sane.profiles, h.sane.servers⟩

end Within

end Geopm
