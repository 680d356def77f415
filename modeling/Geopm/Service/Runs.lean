import Geopm.Service.Restart

/-!
# What every action keeps

* `Session.SameClient`, `Session.Keeps` : two records of one session;
* `lookup_apply`, `mem_apply`, `file_apply` : what an effect does to the sessions and their files;
* `Kept` : the invariant of all runs, `kept_of_reachable`;
* `call_spec`, `restart_spec`, `around_spec` : what the three kinds of action do.
-/

namespace Geopm

open Prog
open AList

/-! ### The members of a session that do not change -/

/-- The two records were made for the same process: `client_uid`, `client_gid` and `create_time`
agree. -/
def Session.SameClient (s t : Session) : Prop :=
  t.clientUid = s.clientUid ∧ t.clientGid = s.clientGid ∧ t.createTime = s.createTime

instance (s t : Session) : Decidable (s.SameClient t) := by
  unfold Session.SameClient
  infer_instance

theorem Session.SameClient.symm {s t : Session} (h : s.SameClient t) : t.SameClient s :=
  ⟨h.1.symm, h.2.1.symm, h.2.2.symm⟩

theorem Session.SameClient.trans {s t u : Session} (h : s.SameClient t) (h' : t.SameClient u) :
    s.SameClient u :=
  ⟨h'.1.trans h.1, h'.2.1.trans h.2.1, h'.2.2.trans h.2.2⟩

theorem Session.SameClient.sameProcess {s t : Session} (h : s.SameClient t) (pi : Proc) :
    World.sameProcess t pi = World.sameProcess s pi := by
  obtain ⟨huid, hgid, htime⟩ := h
  simp only [World.sameProcess, huid, hgid, htime]

/-- The record `t` is a later record of the same session as `s`. -/
structure Session.Keeps (s t : Session) : Prop where
  clientPid : t.clientPid = s.clientPid
  client : s.SameClient t
  signals : t.signals = s.signals
  controls : t.controls = s.controls

namespace Session.Keeps

variable {s t u : Session}

theorem refl (s : Session) : s.Keeps s := ⟨rfl, ⟨rfl, rfl, rfl⟩, rfl, rfl⟩

theorem trans (h : s.Keeps t) (h' : t.Keeps u) : s.Keeps u where
  clientPid := h'.clientPid.trans h.clientPid
  client := h.client.trans h'.client
  signals := h'.signals.trans h.signals
  controls := h'.controls.trans h.controls

theorem symm (h : s.Keeps t) : t.Keeps s :=
  ⟨h.clientPid.symm, h.client.symm, h.signals.symm, h.controls.symm⟩

/-- A record continues another one when only its other members differ. -/
theorem of_members {referenceCount : ℤ} {watchId : ℤ} {batchServer : Option Pid}
    {profileName : Option String} :
    s.Keeps { s with
      referenceCount := referenceCount
      watchId := watchId
      batchServer := batchServer
      profileName := profileName } :=
  ⟨rfl, ⟨rfl, rfl, rfl⟩, rfl, rfl⟩

end Session.Keeps

/-! ### Sessions and files after an effect -/

section Effects

variable {w : World} {e : Effect} {p : Pid} {s t : Session}

theorem lookup_apply (hguard : Effect.guard w e)
    (ht : (Effect.apply w e).sessions.lookup p = some t) :
    (∃ s, w.sessions.lookup p = some s ∧ s.Keeps t) ∨ ∃ user, e = .openSession p user t := by
  have hsame : w.sessions.lookup p = some t → ∃ s, w.sessions.lookup p = some s ∧ s.Keeps t :=
    fun h => ⟨t, h, .refl t⟩
  -- one record changes
  have hinsert : ∀ {q : Pid} {s u : Session}, w.sessions.lookup q = some s → s.Keeps u →
      (w.sessions.insert q u).lookup p = some t → ∃ s, w.sessions.lookup p = some s ∧ s.Keeps t := by
    intro q s u hs hu hp
    rw [Dict.lookup_insert_eq] at hp
    split_ifs at hp with hpq
    · cases hp
      exact ⟨s, hpq ▸ hs, hu⟩
    · exact hsame hp
  -- one record is removed
  have herase : ∀ {q : Pid}, (w.sessions.erase q).lookup p = some t →
      ∃ s, w.sessions.lookup p = some s ∧ s.Keeps t := by
    intro q hp
    rw [Dict.lookup_erase_eq] at hp
    split_ifs at hp
    exact hsame hp
  cases e with
  | close q dir => exact .inl (herase ht)
  | drop q lock => exact .inl (herase ht)
  | openSession q user s =>
    change (w.sessions.insert q s).lookup p = some t at ht
    rw [Dict.lookup_insert_eq] at ht
    split_ifs at ht with hq
    · cases ht
      exact .inr ⟨user, by rw [hq]⟩
    · exact .inl (hsame ht)
  | count q s n => exact .inl (hinsert hguard.1 .of_members ht)
  | watch q s id => exact .inl (hinsert hguard .of_members ht)
  | startServer c s v proc signals controls => exact .inl (hinsert hguard.1 .of_members ht)
  | stopServer c s v => exact .inl (hinsert hguard.1 .of_members ht)
  | forgetServer c s v => exact .inl (hinsert hguard.1 .of_members ht)
  | beginProfile q s uid name => exact .inl (hinsert hguard.1 .of_members ht)
  | endProfile q s name => exact .inl (hinsert hguard.1 .of_members ht)
  | _ => exact .inl (hsame ht)

theorem mem_apply (hp : p ∈ w.sessions) :
    p ∈ (Effect.apply w e).sessions ∨ (∃ dir, e = .close p dir) ∨ ∃ lock, e = .drop p lock := by
  have hinsert : ∀ {q : Pid} {u : Session}, p ∈ w.sessions.insert q u :=
    (mem_insert _).mpr (.inr hp)
  have herase : ∀ {q : Pid}, p ≠ q → p ∈ w.sessions.erase q :=
    fun hq => mem_erase.mpr ⟨hq, hp⟩
  cases e with
  | close q dir =>
    by_cases hq : p = q
    · exact .inr (.inl ⟨dir, by rw [hq]⟩)
    · exact .inl (herase hq)
  | drop q lock =>
    by_cases hq : p = q
    · exact .inr (.inr ⟨lock, by rw [hq]⟩)
    · exact .inl (herase hq)
  | openSession q user s => exact .inl hinsert
  | count q s n => exact .inl hinsert
  | watch q s id => exact .inl hinsert
  | startServer c s v proc signals controls => exact .inl hinsert
  | stopServer c s v => exact .inl hinsert
  | forgetServer c s v => exact .inl hinsert
  | beginProfile q s uid name => exact .inl hinsert
  | endProfile q s name => exact .inl hinsert
  | _ => exact .inl hp

/-- The session `t` of `p` has just been written to its file: its process is the one that opened
it, unless the session was read back. -/
def Written (w : World) (e : Effect) (p : Pid) (t : Session) : Prop :=
  (∃ pi, w.procs.lookup p = some pi ∧ World.sameProcess t pi = true) ∨ ∃ s id, e = .watch p s id

/-- A file after an effect was there before, or holds the record of an open session. -/
theorem file_apply {file : SessionFile} (hguard : Effect.guard w e)
    (hfile : (Effect.apply w e).sessionFiles.lookup p = some file) :
    w.sessionFiles.lookup p = some file ∨
      ∃ t, (Effect.apply w e).sessions.lookup p = some t ∧ file = ⟨t.toJson, w.now⟩ ∧
        Written w e p t := by
  -- one record is written
  have hrecord : ∀ {x : World} {q : Pid} {u : Session},
      (x.sessionFiles.insert q ⟨u.toJson, w.now⟩).lookup p = some file →
      x.sessionFiles = w.sessionFiles →
      w.sessionFiles.lookup p = some file ∨ (p = q ∧ file = ⟨u.toJson, w.now⟩) := by
    intro x q u hp hx
    rw [Dict.lookup_insert_eq] at hp
    split_ifs at hp with hq
    · exact .inr ⟨hq, (Option.some.inj hp).symm⟩
    · exact .inl (hx ▸ hp)
  have hinsert : ∀ {q : Pid} {u : Session}, (w.sessions.insert q u).lookup q = some u :=
    lookup_insert _
  have herase : ∀ {q : Pid}, (w.sessionFiles.erase q).lookup p = some file →
      w.sessionFiles.lookup p = some file := by
    intro q hp
    rw [Dict.lookup_erase_eq] at hp
    split_ifs at hp
    exact hp
  -- the process of an active session is the one that opened it
  have hactive : ∀ {q : Pid} {s t : Session}, w.sessions.lookup q = some s → w.active q = true →
      s.Keeps t → Written w e q t := by
    intro q s t hs hact hkeeps
    obtain ⟨s', pi, hs', hpi, hsame⟩ := ActiveSessions.active_iff.mp hact
    cases hs.symm.trans hs'
    exact .inl ⟨pi, hpi, (hkeeps.client.sameProcess pi).trans hsame⟩
  cases e with
  | discard q => exact .inl (herase hfile)
  | close q dir => exact .inl (herase hfile)
  | drop q lock => exact .inl (herase hfile)
  | openSession q user s =>
    refine (hrecord hfile rfl).imp_right fun ⟨hq, hf⟩ => ⟨_, hq ▸ hinsert, hf, ?_⟩
    obtain ⟨-, pi, _, _, _, hpi, rfl, -⟩ := hguard
    exact .inl ⟨pi, hq ▸ hpi, ActiveSessions.sameProcess_iff.mpr ⟨rfl, rfl, rfl⟩⟩
  | count q s n =>
    exact (hrecord hfile rfl).imp_right fun ⟨hq, hf⟩ => ⟨_, hq ▸ hinsert, hf,
      hq ▸ hactive hguard.1 hguard.2 .of_members⟩
  | watch q s id =>
    exact (hrecord hfile rfl).imp_right fun ⟨hq, hf⟩ => ⟨_, hq ▸ hinsert, hf,
      .inr ⟨s, id, by rw [hq]⟩⟩
  | startServer c s v proc signals controls =>
    exact (hrecord (x := w.started c v proc signals controls) hfile rfl).imp_right
      fun ⟨hq, hf⟩ => ⟨_, hq ▸ hinsert, hf, hq ▸ hactive hguard.1 hguard.2.1 .of_members⟩
  | stopServer c s v =>
    exact (hrecord (x := w.stopped v) hfile rfl).imp_right
      fun ⟨hq, hf⟩ => ⟨_, hq ▸ hinsert, hf, hq ▸ hactive hguard.1 hguard.2.1 .of_members⟩
  | forgetServer c s v =>
    exact (hrecord hfile rfl).imp_right fun ⟨hq, hf⟩ => ⟨_, hq ▸ hinsert, hf,
      hq ▸ hactive hguard.1 hguard.2.1 .of_members⟩
  | recordProfile q s shmem =>
    exact (hrecord hfile rfl).imp_right fun ⟨hq, hf⟩ => ⟨s, hq ▸ hguard.1, hf,
      hq ▸ hactive hguard.1 hguard.2 (.refl s)⟩
  | endProfile q s name =>
    exact (hrecord (x := w.endProfile q s name) hfile rfl).imp_right
      fun ⟨hq, hf⟩ => ⟨_, hq ▸ hinsert, hf, hq ▸ hactive hguard.1 hguard.2.1 .of_members⟩
  | _ => exact .inl hfile

theorem procs_apply {pi : Proc} (hguard : Effect.guard w e)
    (hpi : (Effect.apply w e).procs.lookup p = some pi) :
    w.procs.lookup p = some pi ∨ pi.createTime = w.now := by
  have hinsert : ∀ {v : Pid} {proc : Proc}, proc.createTime = w.now →
      (w.procs.insert v proc).lookup p = some pi →
        w.procs.lookup p = some pi ∨ pi.createTime = w.now := by
    intro v proc htime hpi
    rw [Dict.lookup_insert_eq] at hpi
    split_ifs at hpi
    · cases hpi
      exact .inr htime
    · exact .inl hpi
  cases e with
  | close q dir => exact .inl (lookup_without.mp hpi).2
  | drop q lock => exact .inl (lookup_without.mp hpi).2
  | startServer c s v proc signals controls => exact hinsert hguard.2.2.2.2.1 hpi
  | startBroken c s v proc signals controls => exact hinsert hguard.2.2.2.1 hpi
  | stopServer c s v =>
    change (w.stopped v).procs.lookup p = some pi at hpi
    rw [World.stopped_procs] at hpi
    split_ifs at hpi
    · rw [Dict.lookup_erase_eq] at hpi
      split_ifs at hpi
      exact .inl hpi
    · exact .inl hpi
  | _ => exact .inl hpi

theorem now_apply : (Effect.apply w e).now = w.now := by
  cases e <;> rfl

end Effects

/-! ### The invariant of all runs -/

/-- Each session file holds a record of the open session of its client. -/
def Mirrored (w : World) : Prop :=
  ∀ p file, w.sessionFiles.lookup p = some file → ∃ s t : Session,
    file.contents = s.toJson ∧ w.sessions.lookup p = some t ∧ s.Keeps t

/-- The records of the sessions name their clients, and the files hold records of them. -/
structure Recorded (w : World) : Prop where
  clientPid : ∀ p s, w.sessions.lookup p = some s → s.clientPid = p
  mirrored : Mirrored w

/-- What every action keeps. -/
structure Kept (w : World) : Prop where
  sane : Sane w
  isFileActive : w.isFileActive = false
  recorded : Recorded w

variable {w : World}

theorem Recorded.files (h : Recorded w) : FilesOk w := by
  intro p file hfile
  obtain ⟨s, t, hcontents, ht, hkeeps⟩ := h.mirrored p file hfile
  exact ⟨s, hcontents, hkeeps.clientPid.symm.trans (h.clientPid p t ht)⟩

theorem Recorded.apply {e : Effect} (h : Recorded w) (hguard : Effect.guard w e) :
    Recorded (Effect.apply w e) := by
  refine ⟨fun p t ht => ?_, fun p file hfile => ?_⟩
  · rcases lookup_apply hguard ht with ⟨s, hs, hkeeps⟩ | ⟨user, rfl⟩
    · exact hkeeps.clientPid.trans (h.clientPid p s hs)
    · obtain ⟨-, pi, _, _, _, -, rfl, -⟩ := hguard
      rfl
  · rcases file_apply hguard hfile with hold | ⟨t, ht, rfl, -⟩
    · obtain ⟨s, t, hcontents, ht, hkeeps⟩ := h.mirrored p file hold
      have hp : p ∈ w.sessions := (Dict.mem_iff _ _).mpr ⟨t, ht⟩
      -- a session does not end without its file
      have hmem : p ∈ (Effect.apply w e).sessions := by
        rcases mem_apply (e := e) hp with hmem | ⟨dir, rfl⟩ | ⟨lock, rfl⟩
        · exact hmem
        · exact absurd (hfile.symm.trans (lookup_erase p _)) (by simp)
        · exact absurd (hfile.symm.trans (lookup_erase p _)) (by simp)
      obtain ⟨t', ht'⟩ := (Dict.mem_iff _ _).mp hmem
      rcases lookup_apply hguard ht' with ⟨u, hu, hkeeps'⟩ | ⟨user, rfl⟩
      · cases ht.symm.trans hu
        exact ⟨s, t', hcontents, ht', hkeeps.trans hkeeps'⟩
      · exact absurd hp hguard.1
    · exact ⟨t, t, rfl, ht, .refl t⟩

variable {w w' : World}

theorem Recorded.steps {A : Effect → Prop} (h : Recorded w)
    (hsteps : Steps A w w') : Recorded w' :=
  hsteps.invariant h (fun _ _ _ h => ⟨h.1, h.2⟩) fun _ _ h _ hguard => h.apply hguard

/-! ### Calls -/

variable {o : Outcomes}

/-- A call is a sequence of its effects. -/
theorem call_spec {r : Call} (hw : Kept w)
    (h : service.step w (.call o r) w') :
    w.up = true ∧ w.freshPopen o = true ∧ w' = w.afterCall o r ∧
      Within (r.effects (w.withOutcomes o)) (w.withOutcomes o) false w' := by
  change (if w.up && w.freshPopen o then some (w.afterCall o r) else none) = some w' at h
  split_ifs at h with hup
  rw [Bool.and_eq_true] at hup
  cases h
  exact ⟨hup.1, hup.2, rfl, PlatformService.within_afterCall r hw.sane hw.isFileActive hup.2⟩

theorem Kept.call {r : Call} (hw : Kept w)
    (h : service.step w (.call o r) w') : Kept w' := by
  obtain ⟨-, -, -, hwithin⟩ := call_spec hw h
  have hstart : Recorded (w.withOutcomes o) := ⟨hw.recorded.1, hw.recorded.2⟩
  exact ⟨hwithin.sane, hwithin.isFileActive, hstart.steps hwithin.steps⟩

/-! ### Restarts -/

namespace World

/-- The state in which the constructor starts. -/
@[simps -fullyApplied] def restarting (w : World) (o : Outcomes) : World :=
  { w with outcomes := o, isFileActive := false }

/-- The constructor has returned, or raised. -/
@[simps -fullyApplied] def setUp (w : World) (b : Bool) : World := { w with up := b }

end World

namespace Restarted

variable {w w₁ : World}

section

variable (h : Restarted w w₁)
include h

theorem sessions (p : Pid) : w₁.sessions.lookup p = w.loaded p := by
  obtain ⟨w₂, j, hload, -, rfl⟩ := h.loaded
  exact hload.lookup p

theorem sessionFiles (p : Pid) :
    w₁.sessionFiles.lookup p = (w.loaded p).map fun s => ⟨s.toJson, w.now⟩ := by
  obtain ⟨w₂, j, hload, -, rfl⟩ := h.loaded
  exact hload.file p

/-- The members that the reading of the files does not touch. -/
theorem rest : ∃ sessions files profiles j,
    w.journal.Logs j [] ∧ w₁ = { w.emptied with
      batchSubp := ∅
      sessions := sessions
      sessionFiles := files
      profiles := profiles
      journal := j } := by
  obtain ⟨w₂, j, hload, hj, rfl⟩ := h.loaded
  have hlogs := hload.logs.trans hj
  obtain ⟨sessions, files, profiles, j', rfl⟩ := hload.rest
  exact ⟨sessions, files, profiles, j, hlogs, rfl⟩

theorem procs : w₁.procs = w.procs := by
  obtain ⟨_, _, _, _, -, rfl⟩ := h.rest
  rfl

theorem controlLock : w₁.controlLock = w.controlLock := by
  obtain ⟨_, _, _, _, -, rfl⟩ := h.rest
  rfl

theorem profilerLock : w₁.profilerLock = w.profilerLock := by
  obtain ⟨_, _, _, _, -, rfl⟩ := h.rest
  rfl

end

theorem lookup (hfiles : FilesOk w) (h : Restarted w w₁) {p : Pid} {s : Session}
    (hs : w₁.sessions.lookup p = some s) :
    ∃ file t pi, w.sessionFiles.lookup p = some file ∧ file.contents = t.toJson ∧
      t.clientPid = p ∧ 0 ≤ t.referenceCount ∧ w.procs.lookup p = some pi ∧
      pi.createTime < file.ctime ∧ s = w.revived t file.ctime := by
  rw [h.sessions, World.loaded, Option.bind_eq_some_iff] at hs
  obtain ⟨file, hfile, hs⟩ := hs
  obtain ⟨t, ht, hpid⟩ := hfiles p file hfile
  rw [ht, ActiveSessions.parseSession_toJson, Option.bind_eq_some_iff] at hs
  obtain ⟨t', ht', hs⟩ := hs
  split_ifs at ht' with hcount
  cases ht'
  split_ifs at hs with hvalid
  rw [hpid, World.pidValid] at hvalid
  cases hpi : w.procs.lookup p with
  | none =>
    rw [hpi] at hvalid
    cases hvalid
  | some pi =>
    rw [hpi] at hvalid
    exact ⟨file, t, pi, hfile, ht, hpid, hcount, rfl, of_decide_eq_true hvalid,
      (Option.some.inj hs).symm⟩

theorem recorded (hfiles : FilesOk w) (h : Restarted w w₁) : Recorded w₁ := by
  refine ⟨fun p s hs => ?_, fun p file hfile => ?_⟩
  · obtain ⟨_, t, _, _, _, hpid, _, _, _, rfl⟩ := h.lookup hfiles hs
    exact hpid
  · rw [h.sessionFiles, Option.map_eq_some_iff] at hfile
    obtain ⟨s, hs, rfl⟩ := hfile
    exact ⟨s, s, rfl, (h.sessions p).trans hs, .refl s⟩

end Restarted

/-- A restart reads the files back and does what `RestartEffect` says; the service does not come
up when the owner of a lock has a stale session. -/
theorem restart_spec (hw : Kept w)
    (h : service.step w (.restart o) w') : ∃ w₁ w₂, Restarted (w.restarting o) w₁ ∧
      ((w' = w₂.setUp true ∧ Within (RestartEffect w₁) w₁ false w₂ ∧
          (∀ p, w₂.controlLock = some p → w₂.active p = true) ∧
          ∀ p, w₂.profilerLock = some p → w₂.active p = true) ∨
        (w' = w₂.setUp false ∧ StaleOwner w₁ ∧
          Within (OrDrop (RestartEffect w₁)) w₁ false w₂)) := by
  have hinit := PlatformService.within_init (w := w.restarting o)
    (Q := fun _ w₂ => ∃ w₁, Restarted (w.restarting o) w₁ ∧
      Within (RestartEffect w₁) w₁ false w₂ ∧
      (∀ p, w₂.controlLock = some p → w₂.active p = true) ∧
      ∀ p, w₂.profilerLock = some p → w₂.active p = true)
    (E := fun _ w₂ => ∃ w₁, Restarted (w.restarting o) w₁ ∧ StaleOwner w₁ ∧
      Within (OrDrop (RestartEffect w₁)) w₁ false w₂)
    hw.recorded.files hw.sane.servers rfl (fun w₁ w₂ hr hwithin hc hp => ⟨w₁, hr, hwithin, hc, hp⟩)
    fun _ w₁ w₂ hr hstale hwithin => ⟨w₁, hr, hstale, hwithin⟩
  have hw' : w' = w.afterRestart o := (Option.some.inj h).symm
  rw [World.afterRestart] at hw'
  rw [show { w.withOutcomes o with isFileActive := false } = w.restarting o from rfl] at hw'
  unfold wp at hinit
  cases hrun : PlatformService.init (w.restarting o) with
  | ok _ w₂ =>
    rw [hrun] at hinit hw'
    obtain ⟨w₁, hr, hwithin⟩ := hinit
    exact ⟨w₁, w₂, hr, .inl ⟨hw', hwithin⟩⟩
  | error _ w₂ =>
    rw [hrun] at hinit hw'
    obtain ⟨w₁, hr, hstale, hwithin⟩ := hinit
    exact ⟨w₁, w₂, hr, .inr ⟨hw', hstale, hwithin⟩⟩

theorem restart_keeps (hw : Kept w)
    (h : service.step w (.restart o) w') {p : Pid} {t : Session}
    (ht : w'.sessions.lookup p = some t) : ∃ s, w.sessions.lookup p = some s ∧ s.Keeps t := by
  obtain ⟨w₁, w₂, hr, hcases⟩ := restart_spec hw h
  have hloaded : ∀ {s}, w₁.sessions.lookup p = some s →
      ∃ s', w.sessions.lookup p = some s' ∧ s'.Keeps s := by
    intro s hs
    obtain ⟨file, u, _, hfile, hu, -, -, -, -, rfl⟩ :=
      Restarted.lookup (w := w.restarting o) hw.recorded.files hr hs
    obtain ⟨u', s', hu', hs', hkeeps⟩ := hw.recorded.mirrored p file hfile
    cases Session.toJson_injective (hu.symm.trans hu')
    exact ⟨s', hs', hkeeps.symm.trans .of_members⟩
  have hsteps : Steps (OrDrop (RestartEffect w₁)) w₁ w₂ ∧ w₂.sessions.lookup p = some t := by
    rcases hcases with ⟨rfl, hwithin, -⟩ | ⟨rfl, -, hwithin⟩
    · exact ⟨hwithin.steps.mono fun e => .inl, ht⟩
    · exact ⟨hwithin.steps, ht⟩
  have hinv : ∀ t, w₂.sessions.lookup p = some t →
      ∃ s, w.sessions.lookup p = some s ∧ s.Keeps t := by
    refine hsteps.1.invariant (I := fun w' => ∀ t, w'.sessions.lookup p = some t →
      ∃ s, w.sessions.lookup p = some s ∧ s.Keeps t) (fun t ht => hloaded ht)
      (fun _ _ _ h => h) fun u e hI he hguard t ht => ?_
    rcases lookup_apply hguard ht with ⟨s, hs, hkeeps⟩ | ⟨user, rfl⟩
    · obtain ⟨s', hs', hkeeps'⟩ := hI s hs
      exact ⟨s', hs', hkeeps'.trans hkeeps⟩
    · rcases he with he | ⟨q, lock, heq⟩
      · exact he.elim
      · cases heq
  exact hinv t hsteps.2

theorem Kept.restart (hw : Kept w)
    (h : service.step w (.restart o) w') : Kept w' := by
  obtain ⟨w₁, w₂, hr, hcases⟩ := restart_spec hw h
  have hup : ∀ {A : Effect → Prop} {b : Bool}, Within A w₁ false w₂ → Kept (w₂.setUp b) := by
    intro A b hwithin
    have hrecorded := (Restarted.recorded (w := w.restarting o) hw.recorded.files hr).steps
      hwithin.steps
    exact ⟨⟨hwithin.sane.profiles, hwithin.sane.servers⟩, hwithin.isFileActive, hrecorded.1,
      hrecorded.2⟩
  rcases hcases with ⟨rfl, hwithin, -⟩ | ⟨rfl, -, hwithin⟩
  · exact hup hwithin
  · exact hup hwithin

/-! ### What happens around the service -/

namespace Action

/-- The action is not one of the service. -/
def isAround : Action → Bool
  | .call _ _ => false
  | .restart _ => false
  | _ => true

/-- No process changes its effective IDs. -/
def keepsIds : Action → Bool
  | .setCreds _ _ _ _ => false
  | _ => true

end Action

/-- What happens around the service does not touch its files and its memory. -/
structure Around (w w' : World) : Prop where
  rest : ∃ procs servers settings users now, w' = { w with
    procs := procs
    servers := servers
    settings := settings
    users := users
    now := now }
  now : w.now ≤ w'.now
  servers : ∀ v server, w'.servers.lookup v = some server → w.servers.lookup v = some server
  serversOk : ServersOk w → ServersOk w'
  /-- A process is an old one, or has just been created. -/
  procs : ∀ p pi', w'.procs.lookup p = some pi' →
    (∃ pi, w.procs.lookup p = some pi ∧ pi'.createTime = pi.createTime) ∨
      (p ∉ w.procs ∧ pi'.createTime = w.now)
  /-- A child keeps its PID until it is waited for. -/
  children : ∀ v ∈ w.batchSubp, v ∈ w.procs → v ∈ w'.procs

theorem changeProc_procs {p : Pid} {change : Proc → Proc} {q : Pid} {pi' : Proc}
    (h : (w.changeProc p change).procs.lookup q = some pi') :
    ∃ pi, w.procs.lookup q = some pi ∧ (pi' = pi ∨ (q = p ∧ pi' = change pi)) := by
  unfold World.changeProc at h
  cases hpi : w.procs.lookup p with
  | none =>
    rw [hpi] at h
    exact ⟨pi', h, .inl rfl⟩
  | some pi =>
    simp only [hpi, Dict.lookup_insert_eq] at h
    split_ifs at h with hq
    · exact ⟨pi, hq ▸ hpi, .inr ⟨hq, (Option.some.inj h).symm⟩⟩
    · exact ⟨pi', h, .inl rfl⟩

theorem changeProc_rest (w : World) (p : Pid) (change : Proc → Proc) :
    ∃ procs, w.changeProc p change = { w with procs := procs } := by
  unfold World.changeProc
  cases w.procs.lookup p with
  | none => exact ⟨w.procs, rfl⟩
  | some pi => exact ⟨_, rfl⟩

theorem changeProc_mem {p : Pid} {change : Proc → Proc} {q : Pid} (h : q ∈ w.procs) :
    q ∈ (w.changeProc p change).procs := by
  unfold World.changeProc
  cases w.procs.lookup p with
  | none => exact h
  | some pi => exact (mem_insert _).mpr (.inr h)

/-- A process changes, but keeps its creation time. -/
theorem around_changeProc (w : World) (p : Pid) (change : Proc → Proc)
    (hchange : ∀ pi, (change pi).createTime = pi.createTime) :
    Around w (w.changeProc p change) where
  rest := by
    obtain ⟨procs, heq⟩ := changeProc_rest w p change
    exact ⟨procs, w.servers, w.settings, w.users, w.now, heq⟩
  now := by
    obtain ⟨procs, heq⟩ := changeProc_rest w p change
    rw [heq]
  servers := by
    obtain ⟨procs, heq⟩ := changeProc_rest w p change
    rw [heq]
    exact fun _ _ h => h
  serversOk h v hv := by
    refine changeProc_mem (h v ?_)
    obtain ⟨procs, heq⟩ := changeProc_rest w p change
    rw [heq] at hv
    exact hv
  procs q pi' hpi' := by
    obtain ⟨pi, hpi, rfl | ⟨-, rfl⟩⟩ := changeProc_procs hpi'
    · exact .inl ⟨_, hpi, rfl⟩
    · exact .inl ⟨pi, hpi, hchange pi⟩
  children _ _ hv := changeProc_mem hv

theorem around_exit (w : World) (p : Pid) : Around w (w.afterExit p) := by
  have herase : ∀ v server, (w.servers.erase p).lookup v = some server →
      w.servers.lookup v = some server := by
    intro v server hv
    rw [Dict.lookup_erase_eq] at hv
    split_ifs at hv
    exact hv
  unfold World.afterExit
  split_ifs with hp
  · exact ⟨⟨_, _, _, _, _, rfl⟩, le_rfl, herase, fun h v hv => h v (mem_erase.mp hv).2,
      fun q pi hpi => .inl ⟨pi, hpi, rfl⟩, fun _ _ hv => hv⟩
  · refine ⟨⟨_, _, _, _, _, rfl⟩, le_rfl, herase, fun h v hv => ?_, fun q pi hpi => ?_,
      fun v hv hmem => ?_⟩
    · exact mem_erase.mpr ⟨(mem_erase.mp hv).1, h v (mem_erase.mp hv).2⟩
    · change (w.procs.erase p).lookup q = some pi at hpi
      rw [Dict.lookup_erase_eq] at hpi
      split_ifs at hpi
      exact .inl ⟨pi, hpi, rfl⟩
    · exact mem_erase.mpr ⟨fun h => hp (h ▸ hv), hmem⟩

theorem around_spec {a : Action} (ha : a.isAround = true)
    (h : service.step w a w') : Around w w' := by
  change w.next a = some w' at h
  have hsame : ∀ p pi, w.procs.lookup p = some pi →
      (∃ pi', w.procs.lookup p = some pi' ∧ pi.createTime = pi'.createTime) ∨
        (p ∉ w.procs ∧ pi.createTime = w.now) := fun p pi hpi => .inl ⟨pi, hpi, rfl⟩
  cases a with
  | call o r => cases ha
  | restart o => cases ha
  | exit p =>
    cases h
    exact around_exit w p
  | spawn p uid gid sid cap =>
    simp only [World.next] at h
    split_ifs at h with hp
    cases h
    refine ⟨⟨_, _, _, _, _, rfl⟩, le_rfl, fun _ _ h => h, fun h v hv => ?_, fun q pi hpi => ?_,
      fun v _ hv => ?_⟩
    · exact (mem_insert _).mpr (.inr (h v hv))
    · simp only [Dict.lookup_insert_eq] at hpi
      split_ifs at hpi with hq
      · cases hpi
        exact .inr ⟨hq ▸ hp, rfl⟩
      · exact hsame q pi hpi
    · exact (mem_insert _).mpr (.inr hv)
  | setCreds p uid gid cap =>
    cases h
    exact around_changeProc w p _ fun _ => rfl
  | setSid p =>
    cases h
    exact around_changeProc w p _ fun _ => rfl
  | tick n =>
    cases h
    exact ⟨⟨_, _, _, _, _, rfl⟩, Nat.le_add_right _ _, fun _ _ h => h, fun h => h, hsame,
      fun _ _ h => h⟩
  | setUsers users =>
    cases h
    exact ⟨⟨_, _, _, _, _, rfl⟩, le_rfl, fun _ _ h => h, fun h => h, hsame, fun _ _ h => h⟩
  | batchWrite v name domain domainIdx setting =>
    simp only [World.next] at h
    split_ifs at h
    cases h
    exact ⟨⟨_, _, _, _, _, rfl⟩, le_rfl, fun _ _ h => h, fun h => h, hsame, fun _ _ h => h⟩

theorem around_ids {a : Action} (ha : a.isAround = true) (hids : a.keepsIds = true)
    (h : service.step w a w') {p : Pid} {pi' : Proc} (hpi' : w'.procs.lookup p = some pi') :
    (∃ pi, w.procs.lookup p = some pi ∧ ∀ s, World.sameProcess s pi' = World.sameProcess s pi) ∨
      pi'.createTime = w.now := by
  have hsame : w.procs.lookup p = some pi' → (∃ pi, w.procs.lookup p = some pi ∧
      ∀ s, World.sameProcess s pi' = World.sameProcess s pi) := fun hpi => ⟨pi', hpi, fun _ => rfl⟩
  change w.next a = some w' at h
  cases a with
  | call o r => cases ha
  | restart o => cases ha
  | setCreds q uid gid cap => cases hids
  | exit q =>
    cases h
    unfold World.afterExit at hpi'
    split_ifs at hpi'
    · exact .inl (hsame hpi')
    · change (w.procs.erase q).lookup p = some pi' at hpi'
      rw [Dict.lookup_erase_eq] at hpi'
      split_ifs at hpi'
      exact .inl (hsame hpi')
  | spawn q uid gid sid cap =>
    simp only [World.next] at h
    split_ifs at h
    cases h
    simp only [Dict.lookup_insert_eq] at hpi'
    split_ifs at hpi'
    · cases hpi'
      exact .inr rfl
    · exact .inl (hsame hpi')
  | setSid q =>
    cases h
    obtain ⟨pi, hpi, rfl | ⟨-, rfl⟩⟩ := changeProc_procs hpi'
    · exact .inl (hsame hpi)
    · exact .inl ⟨pi, hpi, fun _ => rfl⟩
  | tick n =>
    cases h
    exact .inl (hsame hpi')
  | setUsers users =>
    cases h
    exact .inl (hsame hpi')
  | batchWrite v name domain domainIdx setting =>
    simp only [World.next] at h
    split_ifs at h
    cases h
    exact .inl (hsame hpi')

theorem Kept.around (hw : Kept w) (h : Around w w') : Kept w' := by
  have hservers := h.serversOk hw.sane.servers
  obtain ⟨procs, servers, settings, users, now, rfl⟩ := h.rest
  exact ⟨⟨hw.sane.profiles, hservers⟩, hw.isFileActive, hw.recorded.1, hw.recorded.2⟩

/-! ### All actions -/

theorem Kept.step {a : Action} (hw : Kept w) (h : service.step w a w') :
    Kept w' := by
  cases a with
  | call o r => exact hw.call h
  | restart o => exact hw.restart h
  | _ => exact hw.around (around_spec rfl h)

theorem Fresh.kept (h : Fresh w) : Kept w where
  sane := by
    refine ⟨fun p s name hs _ => ?_, fun v hv => ?_⟩
    · rw [h.sessions] at hs
      cases hs
    · rw [h.servers] at hv
      exact absurd hv (notMem_empty v)
  isFileActive := h.isFileActive
  recorded := by
    refine ⟨fun p s hs => ?_, fun p file hfile => ?_⟩
    · rw [h.sessions] at hs
      cases hs
    · rw [h.sessionFiles] at hfile
      cases hfile

/-- The invariant of all runs. -/
theorem kept_of_reachable {C : World → Action → Prop} {w₀ w : World} (hw₀ : Fresh w₀)
    (h : service.ReachableIf C w₀ w) : Kept w :=
  h.invariant hw₀.kept fun _ _ _ hw _ hst => hw.step hst

end Geopm
