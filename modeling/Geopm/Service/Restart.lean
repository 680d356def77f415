import Geopm.Service.Refinement

/-!
# Restarting the service

`PlatformService.__init__` reads the session files back, and then deals with the owners of the two
locks.

* `World.loaded w p` : the session that the file of `p` gives;
* `Reloaded w w'` : the state after `ActiveSessions.__init__`;
* `RestartEffect` : what the rest of the constructor may do, and `within_init` : it does nothing
  else, and raises only if the owner of a lock has a stale session.
-/

namespace Geopm

open Prog

/-! ### Reading the session files -/

namespace World

/-- `ActiveSessions._is_pid_valid`. -/
def pidValid (w : World) (p : Pid) (fileTime : ℕ) : Bool :=
  match w.procs.lookup p with
  | some pi => decide (pi.createTime < fileTime)
  | none => false

/-- The session of a file that was written at `fileTime`: a batch server that is gone is left
out. -/
def revived (w : World) (s : Session) (fileTime : ℕ) : Session :=
  { s with batchServer := s.batchServer.filter fun v => w.pidValid v fileTime }

/-- The session that the file of `p` gives. -/
def loaded (w : World) (p : Pid) : Option Session :=
  (w.sessionFiles.lookup p).bind fun file =>
    (ActiveSessions.parseSession file.contents).bind fun s =>
      if w.pidValid s.clientPid file.ctime then some (w.revived s file.ctime) else none

/-- The session `s` of `p` has been entered in the tables and its file written. -/
@[simps -fullyApplied] def resumed (w : World) (p : Pid) (s : Session) : World :=
  { w with
    sessions := w.sessions.insert p s
    sessionFiles := w.sessionFiles.insert p ⟨s.toJson, w.now⟩
    profiles := match s.profileName with
      | none => w.profiles
      | some name => w.profiles.insert name (insert p ((w.profiles.lookup name).getD ∅)) }

/-- The service has lost its memory, and the profile files have been removed. -/
@[simps -fullyApplied] def emptied (w : World) : World :=
  { w with sessions := ∅, profiles := ∅, shmem := ∅ }

end World

/-- Each session file holds the record of the session it is named after. -/
def FilesOk (w : World) : Prop :=
  ∀ p file, w.sessionFiles.lookup p = some file →
    ∃ s : Session, file.contents = s.toJson ∧ s.clientPid = p

/-- The state when the files of the PIDs `ks` have been read back from the state `w`. -/
structure Loading (w : World) (ks : List Pid) (w' : World) : Prop where
  sessions : ∀ p, w'.sessions.lookup p = if p ∈ ks then w.loaded p else none
  files : ∀ p, w'.sessionFiles.lookup p =
    if p ∈ ks then (w.loaded p).map fun s => ⟨s.toJson, w.now⟩ else w.sessionFiles.lookup p
  profiles : ∀ name p, (∃ pids, w'.profiles.lookup name = some pids ∧ p ∈ pids) ↔
    p ∈ ks ∧ ∃ s, w.loaded p = some s ∧ s.profileName = some name
  nonempty : ∀ name, w'.profiles.lookup name ≠ some ∅
  rest : ∃ sessions files profiles j, w' = { w.emptied with
    sessions := sessions
    sessionFiles := files
    profiles := profiles
    journal := j }
  logs : w.journal.Logs w'.journal []

/-- The state after `ActiveSessions.__init__`. -/
def Reloaded (w w' : World) : Prop := Loading w w.sessionFiles.keys w'

variable {Q : Unit → World → Prop} {E : PyErr → World → Prop} {p : Pid} {s : Session}

namespace ActiveSessions

variable {w w' : World}

theorem wp_isPidValid {Q : Bool → World → Prop} {t : ℕ} :
    wp (isPidValid p t) Q E w ↔ Q (w.pidValid p t) w := by
  unfold isPidValid World.pidValid
  rw [wp_bind, wp_get]
  cases w.procs.lookup p <;> rfl

/-- A batch server that is gone is left out. -/
theorem wp_reviveBatch {Q : Option Pid → World → Prop} {t : ℕ} :
    wp (match s.batchServer with
      | none => pure none
      | some v => do
        let valid ← isPidValid v t
        return if valid then some v else none) Q E w ↔ Q (w.revived s t).batchServer w := by
  unfold World.revived
  cases s.batchServer with
  | none => rfl
  | some v =>
    rw [wp_bind, wp_isPidValid, wp_pure, Option.filter_some]

theorem wp_restoreSession {t : ℕ}
    (hQ : Q () (w.resumed s.clientPid (w.revived s t))) : wp (restoreSession s t) Q E w := by
  rw [restoreSession, wp_bind]
  refine wp_reviveBatch.mpr ?_
  change wp (do
    setSession s.clientPid (w.revived s t)
    (match (w.revived s t).profileName with
      | none => pure ()
      | some name => addProfilePid name s.clientPid)
    updateSessionFile s.clientPid) Q E w
  generalize w.revived s t = s' at hQ
  rw [wp_bind, wp_setSession, wp_bind]
  unfold World.resumed at hQ
  cases hn : s'.profileName with
  | none =>
    simp only [hn] at hQ
    exact (wp_updateSessionFile (by exact AList.lookup_insert _)).mpr hQ
  | some name =>
    simp only [hn] at hQ
    exact (wp_updateSessionFile (by exact AList.lookup_insert _)).mpr hQ

theorem parseSession_toJson (s : Session) :
    parseSession s.toJson = if 0 ≤ s.referenceCount then some s else none := by
  simp [parseSession, Session.validate_toJson]

theorem wp_loadSessionFile {file : SessionFile}
    (hfile : w.sessionFiles.lookup p = some file)
    (hnone : w.loaded p = none → ∀ j, w.journal.Logs j [] → Q () ((w.quiet j).discardFile p))
    (hsome : ∀ s t, w.loaded p = some (w.revived s t) →
      parseSession file.contents = some s →
      ∀ j, w.journal.Logs j [] → Q () ((w.quiet j).resumed s.clientPid (w.revived s t))) :
    wp (loadSessionFile p) Q E w := by
  have hload : w.loaded p = (parseSession file.contents).bind fun s =>
      if w.pidValid s.clientPid file.ctime then some (w.revived s file.ctime) else none := by
    rw [World.loaded, hfile, Option.bind_some]
  rw [loadSessionFile, wp_bind, wp_uuid4, wp_bind, wp_get]
  simp only [World.quiet_sessionFiles, hfile]
  cases hparse : parseSession file.contents with
  | none =>
    dsimp only
    rw [wp_bind, wp_warn]
    refine hnone ?_ _ (.then_note (.of_stderr rfl) _)
    rw [hload, hparse]
    rfl
  | some s =>
    dsimp only
    rw [hparse, Option.bind_some] at hload
    rw [wp_bind, wp_isPidValid, wp_ite]
    refine ⟨fun hvalid => wp_restoreSession ?_, fun hinvalid => hnone ?_ _ (.of_stderr rfl)⟩
    · refine hsome s file.ctime ?_ hparse _ (.of_stderr rfl)
      rw [hload, if_pos (by exact hvalid)]
    · rw [hload, if_neg (by exact hinvalid)]

end ActiveSessions

section Loading

variable {w w' : World}

theorem loaded_congr (hfile : w'.sessionFiles.lookup p = w.sessionFiles.lookup p)
    (hprocs : w'.procs = w.procs) : w'.loaded p = w.loaded p := by
  simp only [World.loaded, World.revived, World.pidValid, hfile, hprocs]
  rfl

theorem Loading.procs {ks : List Pid} (h : Loading w ks w') : w'.procs = w.procs := by
  obtain ⟨_, _, _, _, rfl⟩ := h.rest
  rfl

theorem Loading.discard {ks : List Pid} (h : Loading w ks w') (hp : p ∉ ks)
    (hnone : w.loaded p = none) {j : Journal} (hj : w'.journal.Logs j []) :
    Loading w (ks ++ [p]) ((w'.quiet j).discardFile p) where
  sessions q := by
    rw [World.discardFile_sessions, World.quiet_sessions, h.sessions]
    by_cases hq : q = p
    · subst hq
      simp [hp, hnone]
    · simp [hq]
  files q := by
    rw [World.discardFile_sessionFiles, World.quiet_sessionFiles, Dict.lookup_erase_eq, h.files]
    by_cases hq : q = p
    · subst hq
      simp [hnone]
    · simp [hq]
  profiles name q := by
    rw [World.discardFile_profiles, World.quiet_profiles, h.profiles]
    by_cases hq : q = p
    · subst hq
      simp [hp, hnone]
    · simp [hq]
  nonempty := h.nonempty
  rest := by
    obtain ⟨sessions, files, profiles, j', rfl⟩ := h.rest
    exact ⟨sessions, _, profiles, j, rfl⟩
  logs := h.logs.trans hj

theorem Loading.resume {ks : List Pid} (h : Loading w ks w') (hp : p ∉ ks)
    (hsome : w.loaded p = some s) {j : Journal} (hj : w'.journal.Logs j []) :
    Loading w (ks ++ [p]) ((w'.quiet j).resumed p s) where
  sessions q := by
    rw [World.resumed_sessions, World.quiet_sessions, Dict.lookup_insert_eq, h.sessions]
    by_cases hq : q = p
    · subst hq
      simp [hsome]
    · simp [hq]
  files q := by
    have hnow : w'.now = w.now := by
      obtain ⟨_, _, _, _, rfl⟩ := h.rest
      rfl
    rw [World.resumed_sessionFiles, World.quiet_sessionFiles, Dict.lookup_insert_eq, h.files]
    by_cases hq : q = p
    · subst hq
      simp [hsome, hnow]
    · simp [hq]
  profiles name q := by
    have hw' := h.profiles name q
    rw [World.resumed_profiles]
    cases hn : s.profileName with
    | none =>
      by_cases hq : q = p
      · subst hq
        simp [hw', hp, hsome, hn]
      · simp [hw', hq]
    | some other =>
      simp only [World.quiet_profiles, Dict.lookup_insert_eq]
      by_cases hother : name = other
      · subst hother
        by_cases hq : q = p
        · subst hq
          simp [hsome, hn]
        · rw [if_pos rfl]
          simp only [Option.some.injEq, exists_eq_left', Finset.mem_insert, hq, false_or,
            List.mem_append, List.mem_singleton, or_false]
          rw [← hw']
          cases w'.profiles.lookup name <;> simp
      · rw [if_neg hother, hw']
        by_cases hq : q = p
        · subst hq
          simp [hp, hsome, hn, Ne.symm hother]
        · simp [hq]
  nonempty name := by
    rw [World.resumed_profiles]
    cases hn : s.profileName with
    | none => exact h.nonempty name
    | some other =>
      simp only [Dict.lookup_insert_eq]
      split_ifs
      · simp
      · exact h.nonempty name
  rest := by
    obtain ⟨sessions, files, profiles, j', rfl⟩ := h.rest
    exact ⟨_, _, _, j, rfl⟩
  logs := h.logs.trans hj

end Loading

/-- `ActiveSessions.__init__` reads back every session file. -/
theorem ActiveSessions.wp_init {Q : Unit → World → Prop} {E : PyErr → World → Prop} {w : World}
     (hfiles : FilesOk w) (hQ : ∀ w', Reloaded w w' → Q () w') :
    wp ActiveSessions.init Q E w := by
  rw [ActiveSessions.init, wp_bind, wp_modify, wp_bind, wp_get]
  refine wp_mono_ok (wp_forM_done (I := Loading w) ?_ ?_) fun _ => hQ
  · exact ⟨fun p => by simp, fun p => by simp, fun name p => by simp, fun name => by simp,
      ⟨_, _, _, _, rfl⟩, .of_stderr rfl⟩
  · intro ks p post hks w' hw'
    have hp : p ∉ ks := by
      have hnodup : (ks ++ p :: post).Nodup := hks ▸ w.sessionFiles.keys_nodup
      exact fun h => (List.nodup_append.mp hnodup).2.2 p h p List.mem_cons_self rfl
    have hmem : p ∈ w.sessionFiles := by
      have hkey : p ∈ w.sessionFiles.keys := by
        change w.sessionFiles.keys = _ at hks
        rw [hks]
        simp
      exact AList.mem_keys.mpr hkey
    obtain ⟨file, hfile⟩ := (Dict.mem_iff _ _).mp hmem
    have hfile' : w'.sessionFiles.lookup p = some file := by
      rw [hw'.files, if_neg hp, hfile]
    have hload : w'.loaded p = w.loaded p := loaded_congr (hfile'.trans hfile.symm) hw'.procs
    refine ActiveSessions.wp_loadSessionFile hfile' (fun hnone j hj => hw'.discard hp (hload ▸ hnone) hj) ?_
    intro s t hsome hparse j hj
    obtain ⟨s', hs', hpid⟩ := hfiles p file hfile
    have hs : s = s' := by
      rw [hs', ActiveSessions.parseSession_toJson] at hparse
      split_ifs at hparse
      exact (Option.some.inj hparse).symm
    rw [hs, hpid]
    exact hw'.resume hp (by rw [← hload, hsome, hs]) hj

section Reloaded

variable {w w' : World}

theorem loaded_of_notMem {p : Pid} (hp : p ∉ w.sessionFiles.keys) : w.loaded p = none := by
  have hnone := (Dict.notMem_iff w.sessionFiles p).mp fun h => hp (AList.mem_keys.mp h)
  rw [World.loaded, hnone]
  rfl

/-- The sessions after `ActiveSessions.__init__` are those that the files give. -/
theorem Reloaded.lookup (h : Reloaded w w') (p : Pid) : w'.sessions.lookup p = w.loaded p := by
  rw [h.sessions]
  split_ifs with hp
  · rfl
  · exact (loaded_of_notMem hp).symm

theorem Reloaded.file (h : Reloaded w w') (p : Pid) :
    w'.sessionFiles.lookup p = (w.loaded p).map fun s => ⟨s.toJson, w.now⟩ := by
  rw [h.files]
  split_ifs with hp
  · rfl
  · rw [loaded_of_notMem hp]
    exact (Dict.notMem_iff w.sessionFiles p).mp fun h => hp (AList.mem_keys.mp h)

end Reloaded

/-! ### The rest of the constructor -/

/-- The state when `ActiveSessions` has been constructed and the members of the service are
empty. -/
structure Restarted (w w₁ : World) : Prop where
  loaded : ∃ w₂ j, Reloaded w w₂ ∧ w₂.journal.Logs j [] ∧
    w₁ = { w₂ with batchSubp := ∅, journal := j }

/-- What the constructor may do after that: the owner of a lock keeps it only with a session. -/
def RestartEffect (w : World) : Effect → Prop
  | .watch _ _ _ => True
  | .discard p => w.controlLock = some p ∨ w.profilerLock = some p
  | .release p _ => w.controlLock = some p
  | .unlockProfiler => ∃ p, w.profilerLock = some p ∧ p ∉ w.sessions
  | _ => False

/-- The effects in `A`, and the removal of a session inside a lock context. -/
def OrDrop (A : Effect → Prop) (e : Effect) : Prop := A e ∨ ∃ p lock, e = .drop p lock

/-- The owner of a lock has a session, but is no longer the process that opened it. -/
def StaleOwner (w : World) : Prop :=
  ∃ p, w.stale p = true ∧ (w.controlLock = some p ∨ w.profilerLock = some p)

/-- What watching the loaded sessions leaves alone. -/
structure Watched (w w' : World) : Prop where
  active : ∀ p, w'.active p = w.active p
  mem : ∀ p, p ∈ w'.sessions ↔ p ∈ w.sessions
  procs : w'.procs = w.procs
  controlLock : w'.controlLock = w.controlLock
  profilerLock : w'.profilerLock = w.profilerLock

section Restarted

variable {w w' : World}

theorem Loading.isFileActive {ks : List Pid} (h : Loading w ks w') :
    w'.isFileActive = w.isFileActive := by
  obtain ⟨_, _, _, _, rfl⟩ := h.rest
  rfl

theorem Restarted.sane (h : Restarted w w') (hservers : ServersOk w) : Sane w' := by
  obtain ⟨w₂, j, hload, -, rfl⟩ := h.loaded
  refine ⟨fun p s name hs hn => ?_, fun v hv => ?_⟩
  · change w₂.sessions.lookup p = some s at hs
    rw [hload.sessions] at hs
    split_ifs at hs with hp
    exact (hload.profiles name p).mpr ⟨hp, s, hs, hn⟩
  · obtain ⟨_, _, _, _, rfl⟩ := hload.rest
    exact hservers v hv

/-- The processes of the loaded sessions exist. -/
theorem Restarted.alive (hfiles : FilesOk w) (h : Restarted w w') (hp : p ∈ w'.sessions) :
    p ∈ w'.procs := by
  obtain ⟨w₂, j, hload, -, rfl⟩ := h.loaded
  obtain ⟨s, hs⟩ := (Dict.mem_iff _ _).mp hp
  change w₂.sessions.lookup p = some s at hs
  change p ∈ w₂.procs
  rw [hload.sessions] at hs
  split_ifs at hs
  rw [hload.procs]
  obtain ⟨file, hfile, s', hs', hvalid⟩ : ∃ file, w.sessionFiles.lookup p = some file ∧
      ∃ s', ActiveSessions.parseSession file.contents = some s' ∧
        w.pidValid s'.clientPid file.ctime = true := by
    rw [World.loaded, Option.bind_eq_some_iff] at hs
    obtain ⟨file, hfile, hs⟩ := hs
    rw [Option.bind_eq_some_iff] at hs
    obtain ⟨s', hs', hs⟩ := hs
    split_ifs at hs with hvalid
    exact ⟨file, hfile, s', hs', hvalid⟩
  obtain ⟨s'', hcontents, hpid⟩ := hfiles p file hfile
  rw [hcontents, ActiveSessions.parseSession_toJson] at hs'
  split_ifs at hs'
  cases hs'
  rw [hpid, World.pidValid] at hvalid
  refine (Dict.mem_iff _ _).mpr ?_
  cases hpi : w.procs.lookup p with
  | none => rw [hpi] at hvalid; cases hvalid
  | some pi => exact ⟨pi, rfl⟩

theorem Watched.stale (h : Watched w w') (p : Pid) : w'.stale p = w.stale p := by
  simp only [World.stale, h.active, h.mem]

end Restarted

namespace PlatformService

variable {A : Effect → Prop} {w₀ w w' : World}

theorem within_watchLoaded (h : Within A w₀ false w) (hp : p ∈ w.sessions) (halive : p ∈ w.procs)
    (hA : ∀ s watchId, A (.watch p s watchId))
    (hQ : ∀ w', Within A w₀ false w' → Watched w w' → Q () w') : wp (watchLoaded p) Q E w := by
  obtain ⟨s, hs⟩ := (Dict.mem_iff _ _).mp hp
  rw [watchLoaded, wp_bind, checkClient, wp_bind, ActiveSessions.wp_getClients, wp_bind,
    wp_pidExists, if_neg (by simp [halive]), wp_pure, if_pos rfl, wp_bind]
  change wp (ActiveSessions.setWatchId p (w.journal.lastWatch + 1)) Q E (w.quiet { w.journal with
      lastWatch := w.journal.lastWatch + 1
      watches := w.journal.watches.insert (w.journal.lastWatch + 1) p })
  rw [ActiveSessions.setWatchId]
  refine (ActiveSessions.wp_setMember (by exact hs)).mpr (hQ _ ?_ ?_)
  · exact h.step (e := .watch p s (w.journal.lastWatch + 1)) (hA _ _) hs (.of_stderr rfl)
  · refine ⟨fun q => ?_, fun q => ?_, rfl, rfl, rfl⟩
    · simp only [World.active, World.record_sessions, World.quiet_sessions, World.record_procs,
        World.quiet_procs, Dict.lookup_insert_eq]
      split_ifs with hq
      · subst hq
        rw [hs]
        cases w.procs.lookup q <;> rfl
      · rfl
    · rw [World.record_sessions, AList.mem_insert]
      constructor
      · rintro (rfl | hq)
        · exact hp
        · exact hq
      · exact .inr

theorem within_ownerActive {Q : Bool → World → Prop} (h : Within A w₀ true w)
    (hdiscard : A (.discard p)) (hQ : w.active p = true → Q true w)
    (hQ' : ∀ j, p ∉ w.sessions → Within A w₀ true ((w.quiet j).discardFile p) →
      Q false ((w.quiet j).discardFile p))
    (hE : ∀ e w', w.stale p = true → Within (OrDrop A) w₀ true w' → E e w') :
    wp (isClientActive p) Q E w := by
  rw [isClientActive, wp_tryCatch]
  rcases active_cases w p with hact | ⟨hact, hp, -⟩ | ⟨hact, hp, hstale⟩
  · exact (ActiveSessions.wp_isClientActive_of_active hact).mpr (hQ hact)
  · refine ActiveSessions.wp_isClientActive_of_notMem hp fun j hlog => ?_
    exact hQ' j hp (Within.discard h hdiscard hp hlog)
  · have hdropped : ∀ msg, wp (do warn msg; closeSessionCompletely p; return false) Q E w := by
      intro msg
      rw [wp_bind, wp_warn, wp_bind]
      have hw := (h.quiet (.then_note (.refl w.journal) msg)).mono (B := OrDrop A) fun e => .inl
      refine wp_closeSessionCompletely_nested hw.sane hw.isFileActive fun j _ hlog =>
        hE _ _ hstale ?_
      exact hw.step (e := .drop p w.controlLock) (.inr ⟨p, _, rfl⟩) ⟨hstale, rfl⟩ hlog
    exact ActiveSessions.wp_isClientActive_of_stale hstale (fun msg => hdropped _) (hdropped _)

/-- What dealing with the owners of the locks leaves alone. -/
structure Recovered (w w' : World) : Prop where
  sessions : w'.sessions = w.sessions
  procs : w'.procs = w.procs

theorem Recovered.active (h : Recovered w w') (p : Pid) : w'.active p = w.active p := by
  rw [World.active, h.sessions, h.procs]
  rfl

theorem Recovered.stale (h : Recovered w w') (p : Pid) : w'.stale p = w.stale p := by
  rw [World.stale, h.active, h.sessions]
  rfl

/-- The owner of the control lock keeps it with an active session; it loses it without one. -/
theorem within_recoverControlLock (h : Within A w₀ false w)
    (hA : ∀ p, w.controlLock = some p → A (.discard p) ∧ ∀ dir, A (.release p dir))
    (hQ : ∀ w', Within A w₀ false w' → Recovered w w' → w'.profilerLock = w.profilerLock →
      (∀ p, w'.controlLock = some p → w'.active p = true) → Q () w')
    (hE : ∀ e w' p, w.stale p = true → w.controlLock = some p → Within (OrDrop A) w₀ false w' →
      E e w') :
    wp recoverControlLock Q E w := by
  have h₁ : Within A w₀ true (w.setActive true) := h.setActive true
  refine WriteLock.wp_withLock h.isFileActive ?_
  rw [wp_bind, wp_get]
  change wp (match w.controlLock with
    | none => return
    | some p => do
      if ← isClientActive p then setWritePid (some p) else closeSessionWrite p) _ _ _
  cases hlock : w.controlLock with
  | none =>
    refine ⟨rfl, hQ _ (h₁.setActive false) ⟨rfl, rfl⟩ rfl fun p hp => ?_⟩
    change w.controlLock = some p at hp
    rw [hlock] at hp
    cases hp
  | some p =>
    dsimp only
    rw [wp_bind]
    refine within_ownerActive h₁ (hA p hlock).1 (fun hact => ?_) (fun j hp hw => ?_) ?_
    · have hw := h₁.quiet (j := { w.journal with writePid := some p }) (.of_stderr rfl)
      rw [if_pos rfl]
      refine ⟨rfl, hQ _ (hw.setActive false) ⟨rfl, rfl⟩ rfl fun q hq => ?_⟩
      change w.controlLock = some q at hq
      rw [hlock] at hq
      cases hq
      exact hact
    · rw [if_neg (by simp)]
      refine wp_closeSessionWrite (by exact hlock) fun j' dir hlog => ⟨rfl, ?_⟩
      refine hQ _ ((hw.step (e := .release p dir) ((hA p hlock).2 dir) ⟨hp, hlock⟩
        hlog).setActive false) ⟨rfl, rfl⟩ rfl fun q hq => ?_
      cases hq
    · exact fun e w' hstale hw' => ⟨hw'.isFileActive, hE _ _ p hstale hlock (hw'.setActive false)⟩

theorem within_recoverProfilerLock (h : Within A w₀ false w)
    (hA : ∀ p, w.profilerLock = some p → A (.discard p) ∧ (p ∉ w.sessions → A .unlockProfiler))
    (hQ : ∀ w', Within A w₀ false w' → Recovered w w' → w'.controlLock = w.controlLock →
      (∀ p, w'.profilerLock = some p → w'.active p = true) → Q () w')
    (hE : ∀ e w' p, w.stale p = true → w.profilerLock = some p → Within (OrDrop A) w₀ false w' →
      E e w') :
    wp recoverProfilerLock Q E w := by
  have h₁ : Within A w₀ true (w.setActive true) := h.setActive true
  refine WriteLock.wp_withLock h.isFileActive ?_
  rw [wp_bind, wp_get]
  change wp (match w.profilerLock with
    | none => return
    | some p => do
      if ← isClientActive p then return else WriteLock.unlock .profiler p) _ _ _
  cases hlock : w.profilerLock with
  | none =>
    refine ⟨rfl, hQ _ (h₁.setActive false) ⟨rfl, rfl⟩ rfl fun p hp => ?_⟩
    change w.profilerLock = some p at hp
    rw [hlock] at hp
    cases hp
  | some p =>
    dsimp only
    rw [wp_bind]
    refine within_ownerActive h₁ (hA p hlock).1 (fun hact => ?_) (fun j hp hw => ?_) ?_
    · rw [if_pos rfl]
      refine ⟨rfl, hQ _ (h₁.setActive false) ⟨rfl, rfl⟩ rfl fun q hq => ?_⟩
      change w.profilerLock = some q at hq
      rw [hlock] at hq
      cases hq
      exact hact
    · rw [if_neg (by simp)]
      refine (WriteLock.wp_unlock (by exact hlock)).mpr ⟨rfl, ?_⟩
      refine hQ _ ((hw.step' (e := .unlockProfiler) ((hA p hlock).2 hp) trivial
        rfl).setActive false) ⟨rfl, rfl⟩ rfl fun q hq => ?_
      cases hq
    · exact fun e w' hstale hw' => ⟨hw'.isFileActive, hE _ _ p hstale hlock (hw'.setActive false)⟩

/-- **The constructor.** It reads the files back, and then only watches the clients and releases
the locks whose owners have no session.  It raises only when the owner of a lock has a stale
session. -/
theorem within_init (hfiles : FilesOk w) (hservers : ServersOk w) (hact : w.isFileActive = false)
    (hQ : ∀ w₁ w', Restarted w w₁ → Within (RestartEffect w₁) w₁ false w' →
      (∀ p, w'.controlLock = some p → w'.active p = true) →
      (∀ p, w'.profilerLock = some p → w'.active p = true) → Q () w')
    (hE : ∀ e w₁ w', Restarted w w₁ → StaleOwner w₁ →
      Within (OrDrop (RestartEffect w₁)) w₁ false w' → E e w') :
    wp init Q E w := by
  rw [init, wp_bind]
  refine ActiveSessions.wp_init hfiles fun w₂ hload => ?_
  rw [wp_bind, wp_modify, wp_bind, ActiveSessions.wp_getClients, wp_bind]
  obtain ⟨w₁, hw₁⟩ : ∃ w₁ : World, w₁ = { w₂ with
      batchSubp := ∅
      journal := { w₂.journal with
        accessedSignals := ∅, accessedControls := ∅, writePid := none } } := ⟨_, rfl⟩
  rw [← hw₁]
  have hrestarted : Restarted w w₁ := ⟨w₂, { w₂.journal with
      accessedSignals := ∅, accessedControls := ∅, writePid := none }, hload, .of_stderr rfl, hw₁⟩
  have h₁ : Within (RestartEffect w₁) w₁ false w₁ := by
    refine .refl ?_ (hrestarted.sane hservers)
    rw [hw₁]
    exact hload.isFileActive.trans hact
  -- the loop over the loaded sessions
  have hloop : wp ((pySorted w₁.sessions.keys).forM watchLoaded)
      (fun _ w' => Within (RestartEffect w₁) w₁ false w' ∧ Watched w₁ w') E w₁ := by
    refine wp_forM ⟨h₁, fun _ => rfl, fun _ => .rfl, rfl, rfl, rfl⟩ fun p hp w' hw' => ?_
    have hp₁ : p ∈ w₁.sessions := by
      rw [mem_pySorted] at hp
      exact AList.mem_keys.mpr hp
    obtain ⟨hwithin, hwatched⟩ := hw'
    refine within_watchLoaded hwithin ((hwatched.mem p).mpr hp₁)
      (hwatched.procs ▸ hrestarted.alive hfiles hp₁) (fun _ _ => trivial) fun w'' hw'' hw => ?_
    exact ⟨hw'', fun q => (hw.active q).trans (hwatched.active q),
      fun q => (hw.mem q).trans (hwatched.mem q), hw.procs.trans hwatched.procs,
      hw.controlLock.trans hwatched.controlLock, hw.profilerLock.trans hwatched.profilerLock⟩
  refine wp_mono_ok hloop fun _ w' hw' => ?_
  obtain ⟨hwithin, hwatched⟩ := hw'
  rw [wp_bind]
  refine within_recoverControlLock hwithin (fun p hp => ?_) (fun w'' hw'' hrec hprof hctl => ?_) ?_
  · rw [hwatched.controlLock] at hp
    exact ⟨.inl hp, fun _ => hp⟩
  · refine within_recoverProfilerLock hw'' (fun p hp => ?_) (fun w₃ hw₃ hrec' hlock hprofiler => ?_)
      fun e w₃ p hstale hp hw₃ => ?_
    · rw [hprof, hwatched.profilerLock] at hp
      refine ⟨.inr hp, fun hmem => ⟨p, hp, fun h => hmem ?_⟩⟩
      rw [hrec.sessions]
      exact (hwatched.mem p).mpr h
    · refine hQ w₁ w₃ hrestarted hw₃ (fun p hp => ?_) hprofiler
      rw [hrec'.active]
      exact hctl p (hlock ▸ hp)
    · rw [hprof, hwatched.profilerLock] at hp
      rw [hrec.stale, hwatched.stale] at hstale
      exact hE e w₁ w₃ hrestarted ⟨p, hstale, .inr hp⟩ hw₃
  · intro e w'' p hstale hp hw''
    rw [hwatched.controlLock] at hp
    rw [hwatched.stale] at hstale
    exact hE e w₁ w'' hrestarted ⟨p, hstale, .inl hp⟩ hw''

end PlatformService

end Geopm
