import Geopm.Service.ActiveSessions

/-!
# What the methods of `ActiveSessions` do

One rule for each method: from which states it returns, with which value, and in which state it
leaves the world.  The rules compute `Prog.wp`; later proofs use them and never unfold a method.

* `World.quiet`, `World.record`, `World.discardFile`, `World.dropSession` : what the methods do to
  the state;
* `ProfilesOk` : each session that is being profiled is entered in `_profiles`, so removing a
  client never stops half way.
-/

namespace Geopm

open Prog

@[simp] theorem mem_pySorted {α : Type} [LE α] [DecidableLE α] {x : α} {xs : List α} :
    x ∈ pySorted xs ↔ x ∈ xs :=
  List.mem_insertionSort _

/-! ### Messages -/

/-- The journal `j'` continues `j`, and the messages `msgs` are among the new ones. -/
def Journal.Logs (j j' : Journal) (msgs : List String) : Prop :=
  ∃ new, j'.stderr = j.stderr ++ new ∧ ∀ msg ∈ msgs, msg ∈ new

namespace Journal.Logs

variable {j j' j'' : Journal} {msgs msgs' : List String}

theorem of_stderr (h : j'.stderr = j.stderr) : j.Logs j' [] := ⟨[], by simp [h], by simp⟩

theorem refl (j : Journal) : j.Logs j [] := of_stderr rfl

theorem trans (h : j.Logs j' msgs) (h' : j'.Logs j'' msgs') : j.Logs j'' (msgs ++ msgs') := by
  obtain ⟨new, hj, hmsgs⟩ := h
  obtain ⟨new', hj', hmsgs'⟩ := h'
  refine ⟨new ++ new', by rw [hj', hj, List.append_assoc], fun msg hmsg => ?_⟩
  rcases List.mem_append.mp hmsg with h | h
  · exact List.mem_append_left _ (hmsgs msg h)
  · exact List.mem_append_right _ (hmsgs' msg h)

theorem mono (h : j.Logs j' msgs') (hsub : msgs ⊆ msgs') : j.Logs j' msgs := by
  obtain ⟨new, hj, hmsgs⟩ := h
  exact ⟨new, hj, fun msg hmsg => hmsgs msg (hsub hmsg)⟩

theorem warn (j : Journal) (msg : String) : j.Logs { j with stderr := j.stderr ++ [msg] } [msg] :=
  ⟨[msg], rfl, fun _ h => h⟩

/-- A journal that keeps the messages of the last one. -/
theorem then_stderr (h : j.Logs j' msgs) (hj : j''.stderr = j'.stderr) : j.Logs j'' msgs := by
  obtain ⟨new, hnew, hmsgs⟩ := h
  exact ⟨new, hj.trans hnew, hmsgs⟩

theorem then_warn (h : j.Logs j' msgs) (msg : String) :
    j.Logs { j' with stderr := j'.stderr ++ [msg] } (msgs ++ [msg]) :=
  h.trans (warn j' msg)

theorem then_note (h : j.Logs j' msgs) (msg : String) :
    j.Logs { j' with stderr := j'.stderr ++ [msg] } msgs :=
  (h.then_warn msg).mono (List.subset_append_left _ _)

end Journal.Logs

/-! ### Updates of the state -/

namespace World

/-- The journal changes. -/
@[simps -fullyApplied] def quiet (w : World) (j : Journal) : World := { w with journal := j }

/-- The record of a session changes, and is written to its file. -/
@[simps -fullyApplied] def record (w : World) (p : Pid) (s : Session) : World :=
  { w with
    sessions := w.sessions.insert p s
    sessionFiles := w.sessionFiles.insert p ⟨s.toJson, w.now⟩ }

/-- The session file of a PID disappears. -/
@[simps -fullyApplied] def discardFile (w : World) (p : Pid) : World :=
  { w with sessionFiles := w.sessionFiles.erase p }

/-- `_profiles` without the PID `p` under `name`. -/
def profilesWithout (w : World) (name : String) (p : Pid) : Dict String (Finset Pid) :=
  let pids := ((w.profiles.lookup name).getD ∅).erase p
  if pids = ∅ then (w.profiles.insert name pids).erase name else w.profiles.insert name pids

/-- The shared memory files left when `_profiles` becomes `profiles`, and a process of the user
`uid` with PID `p` has ended its profile. -/
def shmemWithout (w : World) (profiles : Dict String (Finset Pid)) (p : Pid) (uid : ℕ) :
    Finset ProfPath :=
  let shmem := w.shmem.erase (shmemPathProf "record-log" p uid)
  if profiles.keys = [] then shmem.erase (shmemPathProf "status" p uid) else shmem

/-- The profile `name` of the session `s` of `p` ends. -/
@[simps -fullyApplied] def endProfile (w : World) (p : Pid) (s : Session) (name : String) : World :=
  { w with
    sessions := w.sessions.insert p { s with profileName := none }
    profiles := w.profilesWithout name p
    shmem := w.shmemWithout (w.profilesWithout name p) p s.clientUid }

/-- The name under which the session of `p` is being profiled. -/
def profileOf (w : World) (p : Pid) : Option String :=
  (w.sessions.lookup p).bind Session.profileName

/-- `_profiles` when the session of `p` is removed. -/
def profilesLeft (w : World) (p : Pid) : Dict String (Finset Pid) :=
  match w.profileOf p with
  | some name => w.profilesWithout name p
  | none => w.profiles

/-- The shared memory files when the session of `p` is removed. -/
def shmemLeft (w : World) (p : Pid) : Finset ProfPath :=
  match w.sessions.lookup p with
  | some s => if s.profileName = none then w.shmem
    else w.shmemWithout (w.profilesLeft p) p s.clientUid
  | none => w.shmem

/-- The session `p`, its file and its profile disappear. -/
@[simps -fullyApplied] def dropSession (w : World) (p : Pid) : World :=
  { w with
    sessions := w.sessions.erase p
    sessionFiles := w.sessionFiles.erase p
    profiles := w.profilesLeft p
    shmem := w.shmemLeft p }

/-- A profile of the session `s` of `p` has begun, as far as the memory of the service and the
status file go. -/
@[simps -fullyApplied] def beginProfile (w : World) (p : Pid) (s : Session) (uid : ℕ)
    (name : String) : World :=
  { w with
    sessions := w.sessions.insert p { s with profileName := some name }
    profiles := w.profiles.insert name (insert p ((w.profiles.lookup name).getD ∅))
    shmem := if w.profiles.keys = [] then insert (shmemPathProf "status" p uid) w.shmem
      else w.shmem }

/-- `_profiles` changes. -/
@[simps -fullyApplied] def withProfiles (w : World) (profiles : Dict String (Finset Pid)) : World :=
  { w with profiles := profiles }

/-- The session files change. -/
@[simps -fullyApplied] def withFiles (w : World) (files : Dict Pid SessionFile) : World :=
  { w with sessionFiles := files }

/-- The shared memory files change. -/
@[simps -fullyApplied] def withShmem (w : World) (shmem : Finset ProfPath) : World := { w with shmem := shmem }

end World

/-- Each session that is being profiled is entered in `_profiles`. -/
def ProfilesOk (w : World) : Prop :=
  ∀ p s name, w.sessions.lookup p = some s → s.profileName = some name →
    ∃ pids, w.profiles.lookup name = some pids ∧ p ∈ pids

/-! ### Calls -/

variable {α : Type} {E : PyErr → World → Prop} {w : World} {p : Pid}

section Calls

variable {Q : α → World → Prop}

@[simp] theorem wp_warn {Q : Unit → World → Prop} {msg : String} :
    wp (warn msg) Q E w ↔
      Q () (w.quiet { w.journal with stderr := w.journal.stderr ++ [msg] }) := Iff.rfl

@[simp] theorem wp_uuid4 {Q : String → World → Prop} :
    wp uuid4 Q E w ↔
      Q s!"{w.journal.uuids}" (w.quiet { w.journal with uuids := w.journal.uuids + 1 }) := Iff.rfl

@[simp] theorem wp_pidExists {Q : Bool → World → Prop} :
    wp (pidExists p) Q E w ↔ Q (decide (p ∈ w.procs)) w := Iff.rfl

theorem wp_process {Q : Proc → World → Prop} :
    wp (process p) Q E w ↔
      (∀ pi, w.procs.lookup p = some pi → Q pi w) ∧
      (w.procs.lookup p = none → E (.noSuchProcess p) w) := by
  unfold process
  rw [wp_bind, wp_get]
  cases w.procs.lookup p <;> simp

theorem wp_getsid {Q : Pid → World → Prop} :
    wp (getsid p) Q E w ↔
      (∀ pi, w.procs.lookup p = some pi → Q pi.sid w) ∧
      (w.procs.lookup p = none → E (.processLookup p) w) := by
  unfold getsid
  rw [wp_bind, wp_get]
  cases w.procs.lookup p <;> simp

theorem wp_statUid {Q : ℕ → World → Prop} :
    wp (statUid p) Q E w ↔
      (∀ pi, w.procs.lookup p = some pi → Q pi.uid w) ∧
      (w.procs.lookup p = none → E (.fileNotFound s!"/proc/{p}/status") w) := by
  unfold statUid
  rw [wp_bind, wp_get]
  cases w.procs.lookup p <;> simp

theorem wp_getpwuid {Q : String → World → Prop} {uid : ℕ} :
    wp (getpwuid uid) Q E w ↔
      (∀ name, w.users.pwName uid = some name → Q name w) ∧
      (w.users.pwName uid = none → E (.keyError s!"getpwuid(): uid not found: {uid}") w) := by
  unfold getpwuid
  rw [wp_bind, wp_get]
  cases w.users.pwName uid <;> simp

theorem wp_hasCapSysAdmin {Q : Bool → World → Prop} :
    wp (hasCapSysAdmin p) Q E w ↔
      (∀ pi, w.procs.lookup p = some pi → Q pi.capSysAdmin w) ∧
      (w.procs.lookup p = none → E (.fileNotFound s!"/proc/{p}/status") w) := by
  unfold hasCapSysAdmin
  rw [wp_bind, wp_get]
  cases w.procs.lookup p <;> simp

@[simp] theorem wp_createProf {Q : Unit → World → Prop} {key : String} {uid : ℕ} :
    wp (createProf key p uid) Q E w ↔
      (shmemPathProf key p uid ∈ w.shmem →
        E (.runtimeError s!"geopm_shmem_create_prof() failed: {w.outcomes.message}") w) ∧
      (shmemPathProf key p uid ∉ w.shmem →
        Q () (w.withShmem (insert (shmemPathProf key p uid) w.shmem))) := by
  unfold createProf
  rw [wp_bind, wp_get, wp_ite]
  rfl

end Calls

namespace ActiveSessions

section Rules

variable {Q : α → World → Prop} {s : Session}

@[simp] theorem wp_pidInfo {Q : ℕ × ℕ × ℕ → World → Prop} :
    wp (pidInfo p) Q E w ↔
      (∀ pi, w.procs.lookup p = some pi → Q (pi.uid, pi.gid, pi.createTime) w) ∧
      (w.procs.lookup p = none → E (.noSuchProcess p) w) := by
  simp [pidInfo, wp_process]

theorem wp_session {Q : Session → World → Prop} :
    wp (session p) Q E w ↔
      (∀ s, w.sessions.lookup p = some s → Q s w) ∧
      (w.sessions.lookup p = none → E (.keyError s!"{p}") w) := by
  unfold session
  rw [wp_bind, wp_get]
  cases w.sessions.lookup p <;> simp

@[simp] theorem wp_getClients {Q : List Pid → World → Prop} :
    wp getClients Q E w ↔ Q (pySorted w.sessions.keys) w := Iff.rfl

/-- A member of the record of an open session is read. -/
theorem wp_getMember {msg : String} {member : Session → α} (hs : w.sessions.lookup p = some s) :
    wp (getMember msg member p) Q E w ↔ Q (member s) w := by
  have hp : p ∈ w.sessions := (Dict.mem_iff _ _).mpr ⟨s, hs⟩
  simp [getMember, checkClientActive, wp_session, hp, hs]

variable {Q : Unit → World → Prop}

theorem wp_setMember {msg : String} {change : Session → Session}
    (hs : w.sessions.lookup p = some s) :
    wp (setMember msg change p) Q E w ↔ Q () (w.record p (change s)) := by
  have hp : p ∈ w.sessions := (Dict.mem_iff _ _).mpr ⟨s, hs⟩
  simp [setMember, checkClientActive, wp_session, updateSessionFile, setSession, World.setSession,
    hp, hs, AList.lookup_insert]
  rfl

theorem wp_setMember_of_none {msg : String} {change : Session → Session}
    (hs : w.sessions.lookup p = none) (hE : ∀ msg, E (.runtimeError msg) w) :
    wp (setMember msg change p) Q E w := by
  rw [setMember, wp_bind, checkClientActive, wp_bind, wp_get, wp_ite]
  exact ⟨fun hp => absurd hp ((Dict.notMem_iff _ _).mpr hs), fun _ => hE _⟩

theorem active_iff : w.active p = true ↔
    ∃ s pi, w.sessions.lookup p = some s ∧ w.procs.lookup p = some pi ∧
      World.sameProcess s pi = true := by
  unfold World.active
  cases w.sessions.lookup p <;> cases w.procs.lookup p <;> simp

theorem sameProcess_iff {pi : Proc} : World.sameProcess s pi = true ↔
    s.clientUid = pi.uid ∧ s.clientGid = pi.gid ∧ s.createTime = pi.createTime := by
  simp [World.sameProcess, and_assoc]

theorem discardFile_of_notMem (h : p ∉ w.sessionFiles) : w.discardFile p = w := by
  simp [World.discardFile, Dict.erase_of_notMem _ _ h]

theorem wp_isClientActive_of_active {Q : Bool → World → Prop} (h : w.active p = true) :
    wp (isClientActive p) Q E w ↔ Q true w := by
  obtain ⟨s, pi, hs, hpi, hsame⟩ := active_iff.mp h
  rw [sameProcess_iff] at hsame
  simp [isClientActive, hs, hpi, hsame]

theorem wp_isClientActive_of_notMem {Q : Bool → World → Prop} (h : p ∉ w.sessions)
    (hQ : ∀ j, w.journal.Logs j [] → Q false ((w.quiet j).discardFile p)) :
    wp (isClientActive p) Q E w := by
  rw [Dict.notMem_iff] at h
  simp only [isClientActive, wp_bind, wp_get, h, wp_ite, wp_pure]
  refine ⟨fun _ => ?_, fun hp => ?_⟩
  · simp only [renameUntracked, wp_bind, wp_uuid4, wp_warn, wp_modify]
    exact hQ _ (.then_note (.of_stderr rfl) _)
  · have := hQ w.journal (.refl _)
    rwa [show w.quiet w.journal = w from rfl, discardFile_of_notMem hp] at this

theorem wp_isClientActive_of_stale {Q : Bool → World → Prop} (h : w.stale p = true)
    (hE : ∀ msg, E (.invalidClient msg) w) (hE' : E (.noSuchProcess p) w) :
    wp (isClientActive p) Q E w := by
  simp only [World.stale, Bool.and_eq_true, decide_eq_true_eq, Bool.not_eq_true'] at h
  obtain ⟨hp, hact⟩ := h
  obtain ⟨s, hs⟩ := (Dict.mem_iff _ _).mp hp
  simp only [isClientActive, wp_bind, wp_get, hs, wp_pidInfo, wp_ite, wp_throw]
  refine ⟨fun pi hpi => ⟨fun hsame => ?_, fun _ => hE _⟩, fun _ => hE'⟩
  rw [← sameProcess_iff] at hsame
  rw [active_iff.mpr ⟨s, pi, hs, hpi, hsame⟩] at hact
  cases hact

/-- The record that `add_client` makes. -/
def newSession (p : Pid) (pi : Proc) (signals controls : List String) (watchId : ℤ) : Session where
  clientPid := p
  clientUid := pi.uid
  clientGid := pi.gid
  createTime := pi.createTime
  referenceCount := 1
  signals := signals
  controls := controls
  watchId := watchId
  batchServer := none
  profileName := none

theorem wp_addClient {signals controls : List String} {watchId : ℤ}
    (h : p ∉ w.sessions) :
    wp (addClient p signals controls watchId) Q E w ↔
      (∀ pi, w.procs.lookup p = some pi →
        Q () (w.record p (newSession p pi signals controls watchId))) ∧
      (w.procs.lookup p = none → Q () (w.quiet { w.journal with
        stderr := w.journal.stderr ++ [s!"Warning: <geopm-service>: Session cannot be created " ++
          s!"for PID {p}, it is no longer active\n"] })) := by
  simp only [addClient, wp_bind, wp_get, wp_ite, h, false_implies, not_false_eq_true, true_implies,
    true_and, wp_tryCatch, wp_pidInfo, setSession, wp_modify, updateSessionFile, wp_session,
    World.setSession, AList.lookup_insert, Option.some.injEq, reduceCtorEq, and_true,
    forall_eq', wp_warn]
  rfl

theorem wp_setBatchServer {v : Pid} (hs : w.sessions.lookup p = some s)
    (hb : s.batchServer = none) :
    wp (setBatchServer p v) Q E w ↔ Q () (w.record p { s with batchServer := some v }) := by
  have hp : p ∈ w.sessions := (Dict.mem_iff _ _).mpr ⟨s, hs⟩
  simp [setBatchServer, checkClientActive, wp_session, updateSessionFile, setSession,
    World.setSession, hp, hs, hb, AList.lookup_insert]
  rfl

/-- A batch server is recorded only in an open session, and only once. -/
theorem wp_setBatchServer_of_not {v : Pid}
    (h : ∀ s, w.sessions.lookup p = some s → s.batchServer ≠ none)
    (hE : ∀ msg, E (.runtimeError msg) w) : wp (setBatchServer p v) Q E w := by
  rw [setBatchServer, wp_bind, checkClientActive, wp_bind, wp_get, wp_ite]
  refine ⟨fun hp => ?_, fun _ => hE _⟩
  obtain ⟨s, hs⟩ := (Dict.mem_iff _ _).mp hp
  obtain ⟨current, hb⟩ := Option.ne_none_iff_exists'.mp (h s hs)
  rw [wp_pure, wp_bind, wp_session]
  refine ⟨fun s' hs' => ?_, fun hnone => by rw [hs] at hnone; cases hnone⟩
  cases hs.symm.trans hs'
  rw [hb]
  exact hE _

theorem wp_removeLeftOver {path : String}
    (hQ : ∀ j, w.journal.Logs j [] → Q () (w.quiet j)) : wp (removeLeftOver path) Q E w := by
  simp only [removeLeftOver, wp_bind, wp_get, wp_ite, wp_warn, wp_modify, wp_pure]
  exact ⟨fun _ => hQ _ (.then_stderr (.then_note (.refl _) _) rfl), fun _ => hQ _ (.refl _)⟩

theorem wp_removeBatchServer {v : Pid}
    (hs : w.sessions.lookup p = some s) (hb : s.batchServer = some v)
    (hQ : ∀ j, w.journal.Logs j [] →
      Q () ((w.record p { s with batchServer := none }).quiet j)) :
    wp (removeBatchServer p) Q E w := by
  simp only [removeBatchServer, wp_bind, wp_session, hs, Option.some.injEq, reduceCtorEq,
    false_implies, and_true, forall_eq', hb, setSession, wp_modify, updateSessionFile,
    World.setSession, AList.lookup_insert]
  refine wp_mono (wp_forM (I := fun w' => ∃ j, w.journal.Logs j [] ∧
    w' = (w.record p { s with batchServer := none }).quiet j) ⟨w.journal, .refl _, rfl⟩ ?_) ?_
    fun _ _ h => h
  · rintro path - _ ⟨j, hj, rfl⟩
    exact wp_removeLeftOver fun j' hj' => ⟨j', hj.trans hj', rfl⟩
  · rintro _ _ ⟨j, hj, rfl⟩
    exact hQ j hj

theorem wp_removeBatchServer_of_none
    (hs : w.sessions.lookup p = some s) (hb : s.batchServer = none) :
    wp (removeBatchServer p) Q E w ↔ E (.keyError "'batch_server'") w := by
  simp [removeBatchServer, wp_session, hs, hb]

theorem wp_removeBatchServer_of_notMem
    (hs : w.sessions.lookup p = none) :
    wp (removeBatchServer p) Q E w ↔ E (.keyError s!"{p}") w := by
  simp [removeBatchServer, wp_session, hs]

/-- Reading `_profiles` without a PID back. -/
theorem lookup_profilesWithout {name name' : String} :
    (w.profilesWithout name p).lookup name' =
      if name' = name then
        if ((w.profiles.lookup name).getD ∅).erase p = ∅ then none
        else some (((w.profiles.lookup name).getD ∅).erase p)
      else w.profiles.lookup name' := by
  unfold World.profilesWithout
  dsimp only
  split_ifs with hempty hname hname <;>
    simp [Dict.lookup_erase_eq, Dict.lookup_insert_eq, hname]

@[simp] theorem wp_setSession :
    wp (setSession p s) Q E w ↔ Q () (w.setSession p s) := Iff.rfl

@[simp] theorem wp_unlinkProf {key : String} {uid : ℕ} :
    wp (unlinkProf key p uid) Q E w ↔
      Q () (w.withShmem (w.shmem.erase (shmemPathProf key p uid))) := Iff.rfl

variable {name : String}

theorem wp_addRegionNames {regionNames : List String}
    (hQ : ∀ j, w.journal.Logs j [] → Q () (w.quiet j)) :
    wp (addRegionNames name regionNames) Q E w :=
  hQ _ (.of_stderr rfl)

theorem wp_updateSessionFile (hs : w.sessions.lookup p = some s) :
    wp (updateSessionFile p) Q E w ↔
      Q () (w.withFiles (w.sessionFiles.insert p ⟨s.toJson, w.now⟩)) := by
  simp only [updateSessionFile, wp_bind, wp_session, hs, wp_modify, Option.some.injEq,
    reduceCtorEq, false_implies, and_true, forall_eq']
  rfl

theorem wp_popProfileName {Q : String → World → Prop}
    (hs : w.sessions.lookup p = some s) (hn : s.profileName = some name) :
    wp (popProfileName p) Q E w ↔ Q name (w.setSession p { s with profileName := none }) := by
  simp [popProfileName, hs, hn]

theorem wp_removeProfilePid {pids : Finset Pid}
    (hpids : w.profiles.lookup name = some pids) (hp : p ∈ pids) :
    wp (removeProfilePid name p) Q E w ↔
      Q () (w.withProfiles (w.profiles.insert name (pids.erase p))) := by
  simp only [removeProfilePid, wp_bind, wp_get, hpids, hp, if_true, wp_modify]
  rfl

theorem wp_popEmptyProfile {pids : Finset Pid}
    (hpids : w.profiles.lookup name = some pids) :
    wp (popEmptyProfile name) Q E w ↔
      Q () (w.withProfiles (if pids = ∅ then w.profiles.erase name else w.profiles)) := by
  simp only [popEmptyProfile, wp_modify, hpids, Option.some.injEq]
  split_ifs <;> rfl

/-- Ending a profile that is entered in `_profiles`. -/
theorem wp_stopProfile {regionNames : List String} {doUpdate : Bool}
    {pids : Finset Pid} (hs : w.sessions.lookup p = some s)
    (hn : s.profileName = some name) (hpids : w.profiles.lookup name = some pids) (hp : p ∈ pids)
    (hQ : ∀ j, w.journal.Logs j [] → Q () (if doUpdate then
        ((w.endProfile p s name).quiet j).withFiles
          (w.sessionFiles.insert p ⟨Session.toJson { s with profileName := none }, w.now⟩)
      else (w.endProfile p s name).quiet j)) :
    wp (stopProfile p regionNames doUpdate) Q E w := by
  have hprof : (if pids.erase p = ∅ then (w.profiles.insert name (pids.erase p)).erase name
      else w.profiles.insert name (pids.erase p)) = w.profilesWithout name p := by
    simp [World.profilesWithout, hpids]
  rw [stopProfile, wp_bind, wp_popProfileName hs hn, wp_bind]
  refine wp_addRegionNames fun j hlog => ?_
  rw [wp_bind]
  refine (wp_removeProfilePid (by exact hpids) hp).mpr ?_
  simp only [wp_bind, wp_session, World.withProfiles_sessions, World.quiet_sessions,
    World.setSession_sessions, AList.lookup_insert, Option.some.injEq, reduceCtorEq, false_implies,
    and_true, forall_eq', wp_unlinkProf]
  refine (wp_popEmptyProfile (by exact AList.lookup_insert _)).mpr ?_
  simp only [World.withProfiles_profiles, World.withShmem_profiles, World.quiet_profiles,
    World.setSession_profiles, hprof]
  have hupdate : ∀ w', w' = (w.endProfile p s name).quiet j →
      wp (if doUpdate = true then updateSessionFile p else return) Q E w' := by
    rintro _ rfl
    have hj := hQ j hlog
    cases doUpdate with
    | false => simpa using hj
    | true => exact (wp_updateSessionFile (by exact AList.lookup_insert _)).mpr (by simpa using hj)
  rw [wp_bind, wp_get, wp_bind, wp_ite]
  refine ⟨fun hkeys => ?_, fun hkeys => ?_⟩
  · refine wp_unlinkProf.mpr (hupdate _ ?_)
    simp only [World.withProfiles_profiles] at hkeys
    simp [World.endProfile, World.shmemWithout, hkeys, World.withProfiles, World.withShmem,
      World.quiet, World.setSession]
  · refine wp_pure.mpr (hupdate _ ?_)
    simp only [World.withProfiles_profiles] at hkeys
    simp [World.endProfile, World.shmemWithout, hkeys, World.withProfiles, World.withShmem,
      World.quiet, World.setSession]

/-- Removing a client whose profile, if it has one, is entered in `_profiles`. -/
theorem wp_removeClient (hok : ProfilesOk w)
    (hQ : ∀ j, w.journal.Logs j [] → Q () ((w.dropSession p).quiet j)) :
    wp (removeClient p) Q E w := by
  rw [removeClient, wp_bind, wp_modify, wp_tryCatch]
  change wp _ _ _ (w.discardFile p)
  rw [wp_bind, wp_session]
  refine ⟨fun s hs => ?_, fun hs => ?_⟩
  · have hs' : w.sessions.lookup p = some s := hs
    rw [wp_bind, wp_ite]
    refine ⟨fun hn => ?_, fun hn => ?_⟩
    · have hdrop : w.dropSession p = { w.discardFile p with sessions := w.sessions.erase p } := by
        simp [World.dropSession, World.profilesLeft, World.shmemLeft, World.profileOf, hs', hn,
          World.discardFile]
      have hj := hQ w.journal (.refl _)
      rw [hdrop] at hj
      exact hj
    · obtain ⟨name, hname⟩ := Option.ne_none_iff_exists'.mp hn
      obtain ⟨pids, hpids, hp⟩ := hok p s name hs' hname
      refine wp_stopProfile hs hname hpids hp fun j hlog => ?_
      have hdrop : (w.dropSession p).quiet j =
          { ((w.discardFile p).endProfile p s name).quiet j with
            sessions := (w.sessions.insert p { s with profileName := none }).erase p } := by
        simp [World.dropSession, World.profilesLeft, World.shmemLeft, World.profileOf, hs', hname,
          World.discardFile, World.endProfile, World.quiet, Dict.erase_insert,
          World.profilesWithout, World.shmemWithout]
      have hj := hQ j hlog
      rw [hdrop] at hj
      exact hj
  · have hs' : w.sessions.lookup p = none := hs
    have hdrop : w.dropSession p = w.discardFile p := by
      simp [World.dropSession, World.profilesLeft, World.shmemLeft, World.profileOf, hs',
        World.discardFile, Dict.erase_of_notMem _ _ ((Dict.notMem_iff _ _).mpr hs')]
    have hj := hQ w.journal (.refl _)
    rw [hdrop] at hj
    exact hj

@[simp] theorem wp_addProfilePid :
    wp (addProfilePid name p) Q E w ↔
      Q () (w.withProfiles (w.profiles.insert name (insert p ((w.profiles.lookup name).getD ∅)))) :=
  Iff.rfl

theorem wp_startProfile {pi : Proc}
    (hs : w.sessions.lookup p = some s) (hn : s.profileName = none)
    (hpi : w.procs.lookup p = some pi)
    (hstatus : w.profiles.keys = [] → shmemPathProf "status" p pi.uid ∈ w.shmem →
      ∀ msg, E (.runtimeError msg) w)
    (hlog : shmemPathProf "record-log" p pi.uid ∈ (w.beginProfile p s pi.uid name).shmem →
      ∀ msg, E (.runtimeError msg) (w.beginProfile p s pi.uid name))
    (hQ : (w.profiles.keys = [] → shmemPathProf "status" p pi.uid ∉ w.shmem) →
      shmemPathProf "record-log" p pi.uid ∉ (w.beginProfile p s pi.uid name).shmem →
      Q () (((w.beginProfile p s pi.uid name).withShmem
          (insert (shmemPathProf "record-log" p pi.uid)
            (w.beginProfile p s pi.uid name).shmem)).withFiles
        (w.sessionFiles.insert p
          ⟨Session.toJson { s with profileName := some name }, w.now⟩))) :
    wp (startProfile p name) Q E w := by
  have hp : p ∈ w.sessions := (Dict.mem_iff _ _).mpr ⟨s, hs⟩
  have hbegin : (w.profiles.keys = [] → shmemPathProf "status" p pi.uid ∉ w.shmem) →
      ∀ w', w' = w.beginProfile p s pi.uid name →
      wp (createProf "record-log" p pi.uid) (fun _ => wp (updateSessionFile p) Q E) E w' := by
    rintro hfree _ rfl
    rw [wp_createProf]
    refine ⟨fun h => hlog h _, fun h => ?_⟩
    exact (wp_updateSessionFile (by exact AList.lookup_insert _)).mpr (hQ hfree h)
  simp only [startProfile, checkClientActive, wp_bind, wp_get, wp_ite, hp, not_true_eq_false,
    false_implies, true_implies, and_true, wp_pure, wp_session, hs, Option.some.injEq,
    reduceCtorEq, forall_eq', hn, wp_pidInfo, hpi, wp_addProfilePid, wp_setSession]
  refine ⟨fun hkeys => wp_createProf.mpr ⟨fun h => hstatus hkeys h _, fun h => ?_⟩, fun hkeys => ?_⟩
  · simp only [wp_bind, wp_addProfilePid, wp_setSession]
    refine hbegin (fun _ => h) _ ?_
    simp [World.beginProfile, hkeys, World.withProfiles, World.withShmem, World.setSession]
  · refine hbegin (fun h => absurd h hkeys) _ ?_
    simp [World.beginProfile, hkeys, World.withProfiles, World.setSession]

theorem wp_startProfile_of_not (h : ∀ s, w.sessions.lookup p = some s → s.profileName ≠ none)
    (hE : ∀ msg, E (.runtimeError msg) w) : wp (startProfile p name) Q E w := by
  rw [startProfile, wp_bind, checkClientActive, wp_bind, wp_get, wp_ite]
  refine ⟨fun hp => ?_, fun _ => hE _⟩
  obtain ⟨s, hs⟩ := (Dict.mem_iff _ _).mp hp
  rw [wp_pure, wp_bind, wp_session]
  refine ⟨fun s' hs' => ?_, fun hnone => by rw [hs] at hnone; cases hnone⟩
  rw [if_neg (h s' hs')]
  exact hE _

theorem wp_stopProfile_of_not {regionNames : List String}
    {doUpdate : Bool} (h : ∀ s, w.sessions.lookup p = some s → s.profileName = none)
    (hE : ∀ msg, E (.runtimeError msg) w) : wp (stopProfile p regionNames doUpdate) Q E w := by
  rw [stopProfile, wp_bind, popProfileName, wp_bind, wp_get]
  cases hs : w.sessions.lookup p with
  | none => exact hE _
  | some s =>
    dsimp only
    rw [h s hs]
    exact hE _

end Rules

end ActiveSessions

end Geopm
