import Geopm.Service.Runs

/-!
# The table of sessions as a transition system

The methods of `ActiveSessions`, called directly and in any order.

* `TableCall` : a call of a method that changes the table;
* `table` : the system of these calls, of restarts, and of what happens around the service;
* `Did` : what a call has done, whether it returned or raised;
* `Indexed` : `_profiles` holds exactly the sessions that are being profiled; every action keeps it.
-/

namespace Geopm

open Prog
open ActiveSessions

/-- A call of a method of `ActiveSessions` that changes the table of sessions. -/
inductive TableCall where
  | addClient (p : Pid) (signals controls : List String) (watchId : ℤ)
  | removeClient (p : Pid)
  | setWatchId (p : Pid) (watchId : ℤ)
  | setReferenceCount (p : Pid) (referenceCount : ℤ)
  | incrementReferenceCount (p : Pid)
  | decrementReferenceCount (p : Pid)
  | setBatchServer (p batchPid : Pid)
  | removeBatchServer (p : Pid)
  | startProfile (p : Pid) (name : String)
  | stopProfile (p : Pid) (regionNames : List String) (doUpdate : Bool)

namespace TableCall

/-- The method that is called. -/
def run : TableCall → Py Unit
  | addClient p signals controls watchId => ActiveSessions.addClient p signals controls watchId
  | removeClient p => ActiveSessions.removeClient p
  | setWatchId p watchId => ActiveSessions.setWatchId p watchId
  | setReferenceCount p referenceCount => ActiveSessions.setReferenceCount p referenceCount
  | incrementReferenceCount p => ActiveSessions.incrementReferenceCount p
  | decrementReferenceCount p => ActiveSessions.decrementReferenceCount p
  | setBatchServer p batchPid => ActiveSessions.setBatchServer p batchPid
  | removeBatchServer p => ActiveSessions.removeBatchServer p
  | startProfile p name => ActiveSessions.startProfile p name
  | stopProfile p regionNames doUpdate => ActiveSessions.stopProfile p regionNames doUpdate

/-- The client whose session the call is about. -/
def client : TableCall → Pid
  | addClient p _ _ _ => p
  | removeClient p => p
  | setWatchId p _ => p
  | setReferenceCount p _ => p
  | incrementReferenceCount p => p
  | decrementReferenceCount p => p
  | setBatchServer p _ => p
  | removeBatchServer p => p
  | startProfile p _ => p
  | stopProfile p _ _ => p

/-- The record that a call which changes one member makes of the record of its client. -/
def change : TableCall → Session → Session
  | setWatchId _ watchId, s => { s with watchId := watchId }
  | setReferenceCount _ referenceCount, s => { s with referenceCount := referenceCount }
  | incrementReferenceCount _, s => { s with referenceCount := s.referenceCount + 1 }
  | decrementReferenceCount _, s => { s with referenceCount := s.referenceCount - 1 }
  | setBatchServer _ batchPid, s => { s with batchServer := some batchPid }
  | removeBatchServer _, s => { s with batchServer := none }
  | _, s => s

@[simp] theorem change_clientUid (r : TableCall) (s : Session) :
    (r.change s).clientUid = s.clientUid := by
  cases r <;> rfl

@[simp] theorem change_profileName (r : TableCall) (s : Session) :
    (r.change s).profileName = s.profileName := by
  cases r <;> rfl

end TableCall

/-- One step of the table. -/
inductive TableAction where
  /-- A method of `ActiveSessions` is called. -/
  | call (r : TableCall)
  /-- The service process ends, and the files are read back by a new one. -/
  | restart
  /-- Something happens around the service. -/
  | around (a : Action)

namespace World

/-- What an action does; `none` when it cannot be taken. -/
def tableNext (w : World) : TableAction → Option World
  | .call r => some (final r.run w)
  | .restart => some (final ActiveSessions.init w)
  | .around a => if a.isAround then w.next a else none

/-- The profile `name` of the session `s` of `p` has begun: the record log exists, and the record is
in its file. -/
@[simps -fullyApplied] def profileStarted (w : World) (p : Pid) (s : Session) (uid : ℕ)
    (name : String) : World :=
  { w with
    sessions := w.sessions.insert p { s with profileName := some name }
    profiles := w.profiles.insert name (insert p ((w.profiles.lookup name).getD ∅))
    shmem := insert (shmemPathProf "record-log" p uid) (w.beginProfile p s uid name).shmem
    sessionFiles :=
      w.sessionFiles.insert p ⟨Session.toJson { s with profileName := some name }, w.now⟩ }

/-- The profile `name` of the session `s` of `p` has ended. -/
@[simps -fullyApplied] def profileStopped (w : World) (p : Pid) (s : Session) (name : String)
    (doUpdate : Bool) : World :=
  { w with
    sessions := w.sessions.insert p { s with profileName := none }
    profiles := w.profilesWithout name p
    shmem := w.shmemWithout (w.profilesWithout name p) p s.clientUid
    sessionFiles := if doUpdate then
        w.sessionFiles.insert p ⟨Session.toJson { s with profileName := none }, w.now⟩
      else w.sessionFiles }

end World

/-- The system of `ActiveSessions` and the processes around it. -/
def table : Lts World TableAction := Lts.ofNext World.tableNext

/-! ### What a call does -/

/-- What a call has done to the state `w`, whether it returned or raised. -/
inductive Did (w : World) : TableCall → World → Prop where
  | quiet (r : TableCall) (j : Journal) : Did w r (w.quiet j)
  | added {p : Pid} {pi : Proc} {signals controls : List String} {watchId : ℤ}
      (hp : w.sessions.lookup p = none) (hpi : w.procs.lookup p = some pi) :
      Did w (.addClient p signals controls watchId)
        (w.record p (ActiveSessions.newSession p pi signals controls watchId))
  | changed {r : TableCall} {s : Session} (j : Journal)
      (hs : w.sessions.lookup r.client = some s) :
      Did w r ((w.record r.client (r.change s)).quiet j)
  | started {p : Pid} {s : Session} {pi : Proc} {name : String}
      (hs : w.sessions.lookup p = some s) (hn : s.profileName = none)
      (hpi : w.procs.lookup p = some pi) :
      Did w (.startProfile p name) (w.profileStarted p s pi.uid name)
  /-- The record log was there already: the table has changed, the file has not. -/
  | startedHalf {p : Pid} {s : Session} {pi : Proc} {name : String}
      (hs : w.sessions.lookup p = some s) (hn : s.profileName = none)
      (hpi : w.procs.lookup p = some pi)
      (hlog : shmemPathProf "record-log" p pi.uid ∈ (w.beginProfile p s pi.uid name).shmem) :
      Did w (.startProfile p name) (w.beginProfile p s pi.uid name)
  | stopped {p : Pid} {s : Session} {name : String} {regionNames : List String} {doUpdate : Bool}
      (j : Journal) (hs : w.sessions.lookup p = some s) (hn : s.profileName = some name) :
      Did w (.stopProfile p regionNames doUpdate) ((w.profileStopped p s name doUpdate).quiet j)
  | removed {p : Pid} (j : Journal) : Did w (.removeClient p) ((w.dropSession p).quiet j)

section Calls

variable {w w' : World}

/-- A call that changes one member of a record. -/
theorem wp_changes {r : TableCall} {msg : String}
    (hrun : r.run = ActiveSessions.setMember msg r.change r.client) :
    wp r.run (fun _ => Did w r) (fun _ => Did w r) w := by
  rw [hrun]
  cases hs : w.sessions.lookup r.client with
  | none => exact wp_setMember_of_none hs fun _ => .quiet r w.journal
  | some s => exact (wp_setMember hs).mpr (.changed w.journal hs)

theorem wp_startProfile_did (p : Pid) (name : String) :
    wp (ActiveSessions.startProfile p name) (fun _ => Did w (.startProfile p name))
      (fun _ => Did w (.startProfile p name)) w := by
  by_cases hopen : ∃ s, w.sessions.lookup p = some s ∧ s.profileName = none
  · obtain ⟨s, hs, hn⟩ := hopen
    cases hpi : w.procs.lookup p with
    | none =>
      -- the process does not exist: nothing has been done yet
      have hp : p ∈ w.sessions := (Dict.mem_iff _ _).mpr ⟨s, hs⟩
      simp only [ActiveSessions.startProfile, ActiveSessions.checkClientActive, wp_bind, wp_get,
        wp_ite, hp, not_true_eq_false, false_implies, true_implies, and_true, wp_pure,
        wp_session, hs, Option.some.injEq, reduceCtorEq, forall_eq', hn,
        wp_pidInfo, hpi, implies_true, true_and]
      exact .quiet _ w.journal
    | some pi =>
      exact ActiveSessions.wp_startProfile hs hn hpi (fun _ _ _ => .quiet _ w.journal)
        (fun hlog _ => .startedHalf hs hn hpi hlog) fun _ _ => .started hs hn hpi
  · refine ActiveSessions.wp_startProfile_of_not (fun s hs hn => hopen ⟨s, hs, hn⟩) fun _ => ?_
    exact .quiet _ w.journal

theorem wp_stopProfile_did (hok : ProfilesOk w) (p : Pid) (regionNames : List String)
    (doUpdate : Bool) :
    wp (ActiveSessions.stopProfile p regionNames doUpdate)
      (fun _ => Did w (.stopProfile p regionNames doUpdate))
      (fun _ => Did w (.stopProfile p regionNames doUpdate)) w := by
  by_cases hopen : ∃ s name, w.sessions.lookup p = some s ∧ s.profileName = some name
  · obtain ⟨s, name, hs, hn⟩ := hopen
    obtain ⟨pids, hpids, hp⟩ := hok p s name hs hn
    refine wp_stopProfile hs hn hpids hp fun j _ => ?_
    have hstopped : Did w (.stopProfile p regionNames doUpdate)
        ((w.profileStopped p s name doUpdate).quiet j) := .stopped j hs hn
    cases doUpdate <;> exact hstopped
  · refine ActiveSessions.wp_stopProfile_of_not (fun s hs => ?_) fun _ => .quiet _ w.journal
    by_contra hn
    obtain ⟨name, hn⟩ := Option.ne_none_iff_exists'.mp hn
    exact hopen ⟨s, name, hs, hn⟩

/-- Every call does what `Did` says. -/
theorem wp_run_did (hok : ProfilesOk w) (r : TableCall) :
    wp r.run (fun _ => Did w r) (fun _ => Did w r) w := by
  cases r with
  | addClient p signals controls watchId =>
    by_cases hp : p ∈ w.sessions
    · simp only [TableCall.run, ActiveSessions.addClient, wp_bind, wp_get, wp_ite, hp, wp_pure,
        true_implies, not_true_eq_false, false_implies, and_true]
      exact .quiet _ w.journal
    · refine (wp_addClient hp).mpr ⟨fun pi hpi => ?_, fun _ => .quiet _ _⟩
      exact .added ((Dict.notMem_iff _ _).mp hp) hpi
  | removeClient p => exact ActiveSessions.wp_removeClient hok fun j _ => .removed j
  | setWatchId p watchId => exact wp_changes rfl
  | setReferenceCount p referenceCount => exact wp_changes rfl
  | incrementReferenceCount p => exact wp_changes rfl
  | decrementReferenceCount p => exact wp_changes rfl
  | setBatchServer p batchPid =>
    by_cases hopen : ∃ s, w.sessions.lookup p = some s ∧ s.batchServer = none
    · obtain ⟨s, hs, hb⟩ := hopen
      refine (wp_setBatchServer hs hb).mpr ?_
      exact Did.changed (r := .setBatchServer p batchPid) w.journal hs
    · refine wp_setBatchServer_of_not (fun s hs hb => hopen ⟨s, hs, hb⟩) fun _ => ?_
      exact .quiet _ w.journal
  | removeBatchServer p =>
    cases hs : w.sessions.lookup p with
    | none => exact (ActiveSessions.wp_removeBatchServer_of_notMem hs).mpr (.quiet _ w.journal)
    | some s =>
      cases hb : s.batchServer with
      | none => exact (ActiveSessions.wp_removeBatchServer_of_none hs hb).mpr (.quiet _ w.journal)
      | some v =>
        refine ActiveSessions.wp_removeBatchServer hs hb fun j _ => ?_
        exact Did.changed (r := .removeBatchServer p) j hs
  | startProfile p name => exact wp_startProfile_did p name
  | stopProfile p regionNames doUpdate => exact wp_stopProfile_did hok p regionNames doUpdate

theorem did_of_step {r : TableCall} (hok : ProfilesOk w) (h : table.step w (.call r) w') :
    Did w r w' := by
  have hdid := wp_final.mp (wp_run_did hok r)
  cases (show some (final r.run w) = some w' from h)
  exact hdid

theorem reloaded_of_step (hfiles : FilesOk w) (h : table.step w .restart w') : Reloaded w w' := by
  have hinit := wp_final.mp (wp_init (Q := fun _ => Reloaded w)
    (E := fun _ => Reloaded w) hfiles fun _ h => h)
  cases (show some (final ActiveSessions.init w) = some w' from h)
  exact hinit

theorem around_of_step {a : Action} (h : table.step w (.around a) w') : Around w w' := by
  change (if a.isAround then w.next a else none) = some w' at h
  split_ifs at h with ha
  exact around_spec ha h

end Calls

/-! ### The table of profiles -/

namespace World

/-- The name under which the session of `p` is being profiled, and the user of the session. -/
def profiling (w : World) (p : Pid) : Option (String × ℕ) :=
  (w.sessions.lookup p).bind fun s => s.profileName.map fun name => (name, s.clientUid)

variable {w w' : World} {p : Pid} {s : Session}

theorem profiling_iff {name : String} {uid : ℕ} : w.profiling p = some (name, uid) ↔
    ∃ s, w.sessions.lookup p = some s ∧ s.profileName = some name ∧ s.clientUid = uid := by
  simp [profiling, Option.bind_eq_some_iff, Option.map_eq_some_iff]

theorem profiling_of_insert (h : w'.sessions = w.sessions.insert p s) (q : Pid) :
    w'.profiling q =
      if q = p then s.profileName.map fun name => (name, s.clientUid) else w.profiling q := by
  simp only [profiling, h, Dict.lookup_insert_eq]
  split_ifs <;> rfl

theorem profiling_of_erase (h : w'.sessions = w.sessions.erase p) (q : Pid) :
    w'.profiling q = if q = p then none else w.profiling q := by
  simp only [profiling, h, Dict.lookup_erase_eq]
  split_ifs <;> rfl

/-- A session that replaces one which is profiled alike. -/
theorem profiling_of_alike {t : Session} (hs : w.sessions.lookup p = some s)
    (hn : t.profileName = s.profileName) (hu : t.clientUid = s.clientUid)
    (h : w'.sessions = w.sessions.insert p t) : w'.profiling = w.profiling := by
  funext q
  rw [profiling_of_insert h, hn, hu]
  split_ifs with hq
  · rw [hq, profiling, hs]
    rfl
  · rfl

end World

/-- What a call has done to the profiles. -/
inductive Reprofiled (w w' : World) : TableCall → Prop where
  | same (r : TableCall) (hprofiling : w'.profiling = w.profiling)
      (hprofiles : w'.profiles = w.profiles) (hshmem : w'.shmem = w.shmem) : Reprofiled w w' r
  | started (p : Pid) (s : Session) (pi : Proc) (name : String)
      (hs : w.sessions.lookup p = some s) (hn : s.profileName = none)
      (hpi : w.procs.lookup p = some pi)
      (hprofiling : ∀ q, w'.profiling q =
        if q = p then some (name, s.clientUid) else w.profiling q)
      (hprofiles : w'.profiles =
        w.profiles.insert name (insert p ((w.profiles.lookup name).getD ∅)))
      (hshmem : w'.shmem = insert (shmemPathProf "record-log" p pi.uid)
        (w.beginProfile p s pi.uid name).shmem) : Reprofiled w w' (.startProfile p name)
  | stopped (r : TableCall) (p : Pid) (name : String) (uid : ℕ)
      (hold : w.profiling p = some (name, uid))
      (hprofiling : ∀ q, w'.profiling q = if q = p then none else w.profiling q)
      (hprofiles : w'.profiles = w.profilesWithout name p)
      (hshmem : w'.shmem = w.shmemWithout (w.profilesWithout name p) p uid) : Reprofiled w w' r

/-- `_profiles` holds exactly the sessions that are being profiled. -/
structure Indexed (w : World) : Prop where
  profiled : ∀ name p, (∃ pids, w.profiles.lookup name = some pids ∧ p ∈ pids) ↔
    ∃ uid, w.profiling p = some (name, uid)
  nonempty : ∀ name, w.profiles.lookup name ≠ some ∅
  /-- A record log belongs to a session that is being profiled. -/
  recordLog : ∀ p : Pid, ⟨"record-log", p⟩ ∈ w.shmem → w.profiling p ≠ none

section Indexed

variable {w w' : World} {p : Pid} {r : TableCall}

@[simp] theorem shmemPathProf_recordLog {uid : ℕ} :
    shmemPathProf "record-log" p uid = ⟨"record-log", p⟩ := by
  simp [shmemPathProf]

@[simp] theorem shmemPathProf_status {uid : ℕ} :
    shmemPathProf "status" p uid = ⟨"status", uid⟩ := by
  simp [shmemPathProf]

theorem Indexed.profilesOk (h : Indexed w) : ProfilesOk w := fun p s name hs hn =>
  (h.profiled name p).mpr ⟨s.clientUid, World.profiling_iff.mpr ⟨s, hs, hn, rfl⟩⟩

/-- When nobody is being profiled, `_profiles` is empty. -/
theorem Indexed.keys (h : Indexed w) : w.profiles.keys = [] ↔ ∀ p, w.profiling p = none := by
  rw [List.eq_nil_iff_forall_not_mem]
  refine ⟨fun hkeys p => ?_, fun hnone name hname => ?_⟩
  · by_contra hp
    obtain ⟨⟨name, uid⟩, hp⟩ := Option.ne_none_iff_exists'.mp hp
    obtain ⟨pids, hpids, -⟩ := (h.profiled name p).mpr ⟨uid, hp⟩
    exact hkeys name (AList.mem_keys.mp ((Dict.mem_iff _ _).mpr ⟨pids, hpids⟩))
  · obtain ⟨pids, hpids⟩ := (Dict.mem_iff _ _).mp (AList.mem_keys.mpr hname)
    obtain ⟨p, hp⟩ : pids.Nonempty :=
      Finset.nonempty_iff_ne_empty.mpr fun hempty => h.nonempty name (hempty ▸ hpids)
    obtain ⟨uid, huid⟩ := (h.profiled name p).mp ⟨pids, hpids, hp⟩
    rw [hnone p] at huid
    cases huid

theorem mem_shmemWithout {profiles : Dict String (Finset Pid)} {uid : ℕ} {path : ProfPath} :
    path ∈ w.shmemWithout profiles p uid ↔
      path ∈ w.shmem ∧ path ≠ ⟨"record-log", p⟩ ∧ (profiles.keys = [] → path ≠ ⟨"status", uid⟩) := by
  unfold World.shmemWithout
  dsimp only
  split_ifs with hkeys <;>
    simp only [shmemPathProf_recordLog, shmemPathProf_status, Finset.mem_erase, hkeys,
      true_implies, false_implies, and_true] <;> tauto

theorem Indexed.recordLog_free (h : Indexed w) {s : Session} (hs : w.sessions.lookup p = some s)
    (hn : s.profileName = none) (uid : ℕ) (name : String) :
    shmemPathProf "record-log" p uid ∉ (w.beginProfile p s uid name).shmem := by
  intro hlog
  have hp : w.profiling p = none := by simp [World.profiling, hs, hn]
  rw [shmemPathProf_recordLog, World.beginProfile_shmem] at hlog
  split_ifs at hlog
  · rcases Finset.mem_insert.mp hlog with heq | hlog
    · simp at heq
    · exact h.recordLog p hlog hp
  · exact h.recordLog p hlog hp

/-- What a call does to the profiles. -/
theorem Did.reprofiled (hw : Indexed w) (h : Did w r w') : Reprofiled w w' r := by
  cases h with
  | quiet _ j => exact .same r rfl rfl rfl
  | @added p pi signals controls watchId hp hpi =>
    refine .same _ ?_ rfl rfl
    funext q
    rw [World.profiling_of_insert (w := w) rfl]
    split_ifs with hq
    · rw [hq, World.profiling, hp]
      rfl
    · rfl
  | changed j hs =>
    exact .same _ (World.profiling_of_alike hs (r.change_profileName _) (r.change_clientUid _) rfl)
      rfl rfl
  | @started p s pi name hs hn hpi =>
    refine .started p s pi name hs hn hpi (fun q => ?_) rfl rfl
    rw [World.profiling_of_insert (w := w) rfl]
    rfl
  | startedHalf hs hn hpi hlog => exact absurd hlog (hw.recordLog_free hs hn _ _)
  | @stopped p s name regionNames doUpdate j hs hn =>
    refine .stopped _ p name s.clientUid (World.profiling_iff.mpr ⟨s, hs, hn, rfl⟩) (fun q => ?_)
      rfl rfl
    rw [World.profiling_of_insert (w := w) rfl]
    rfl
  | @removed p j =>
    have herase : ∀ q, ((w.dropSession p).quiet j).profiling q =
        if q = p then none else w.profiling q := World.profiling_of_erase rfl
    cases hold : w.profiling p with
    | none =>
      -- the session was not being profiled
      have hprofile : w.profileOf p = none := by
        cases hs : w.sessions.lookup p <;> simp_all [World.profiling, World.profileOf]
      refine .same _ ?_ ?_ ?_
      · funext q
        rw [herase]
        split_ifs with hq
        · rw [hq, hold]
        · rfl
      · change w.profilesLeft p = w.profiles
        simp only [World.profilesLeft, hprofile]
      · change w.shmemLeft p = w.shmem
        unfold World.shmemLeft
        cases hs : w.sessions.lookup p with
        | none => rfl
        | some s =>
          rw [World.profileOf, hs, Option.bind_some] at hprofile
          simp only [hprofile, if_true]
    | some key =>
      obtain ⟨name, uid⟩ := key
      obtain ⟨s, hs, hn, hu⟩ := World.profiling_iff.mp hold
      have hleft : w.profilesLeft p = w.profilesWithout name p := by
        simp [World.profilesLeft, World.profileOf, hs, hn]
      refine .stopped _ p name uid hold herase hleft ?_
      change w.shmemLeft p = _
      simp [World.shmemLeft, hs, hn, hleft, hu]

theorem Indexed.reprofiled (hw : Indexed w) (h : Reprofiled w w' r) : Indexed w' := by
  cases h with
  | same _ hprofiling hprofiles hshmem =>
    exact ⟨by rw [hprofiling, hprofiles]; exact hw.profiled, by rw [hprofiles]; exact hw.nonempty,
      by rw [hprofiling, hshmem]; exact hw.recordLog⟩
  | started p s pi name hs hn hpi hprofiling hprofiles hshmem =>
    have hp : w.profiling p = none := by simp [World.profiling, hs, hn]
    refine ⟨fun name' q => ?_, fun name' => ?_, fun q hq => ?_⟩
    · have hq := hw.profiled name' q
      rw [hprofiles, hprofiling, Dict.lookup_insert_eq]
      by_cases hqp : q = p
      · subst hqp
        rw [if_pos rfl]
        by_cases hname : name' = name
        · subst hname
          simp
        · rw [if_neg hname, hq, hp]
          simp [Ne.symm hname]
      · rw [if_neg hqp, ← hq]
        by_cases hname : name' = name
        · subst hname
          cases w.profiles.lookup name' <;> simp [hqp]
        · rw [if_neg hname]
    · rw [hprofiles, Dict.lookup_insert_eq]
      split_ifs
      · simp
      · exact hw.nonempty name'
    · rw [hprofiling]
      split_ifs with hqp
      · simp
      · refine hw.recordLog q ?_
        rw [hshmem, shmemPathProf_recordLog, World.beginProfile_shmem] at hq
        split_ifs at hq <;> simpa [hqp] using hq
  | stopped _ p name uid hold hprofiling hprofiles hshmem =>
    refine ⟨fun name' q => ?_, fun name' => ?_, fun q hq => ?_⟩
    · have hq := hw.profiled name' q
      rw [hprofiles, hprofiling, lookup_profilesWithout]
      by_cases hname : name' = name
      · subst hname
        rw [if_pos rfl]
        cases hpids : w.profiles.lookup name' with
        | none =>
          rw [hpids] at hq
          by_cases hqp : q = p <;> simp_all
        | some pids =>
          rw [hpids] at hq
          by_cases hqp : q = p
          · subst hqp
            simp only [Option.getD_some, if_true, reduceCtorEq, exists_const, iff_false]
            rintro ⟨pids', heq, hmem⟩
            split_ifs at heq
            cases heq
            simp at hmem
          · rw [if_neg hqp, ← hq]
            simp only [Option.getD_some, Option.some.injEq, exists_eq_left']
            constructor
            · rintro ⟨pids', heq, hmem⟩
              split_ifs at heq
              cases heq
              exact Finset.mem_of_mem_erase hmem
            · intro hmem
              have hleft : q ∈ pids.erase p := Finset.mem_erase.mpr ⟨hqp, hmem⟩
              exact ⟨pids.erase p, if_neg (Finset.ne_empty_of_mem hleft), hleft⟩
      · rw [if_neg hname, hq]
        by_cases hqp : q = p
        · subst hqp
          simp [hold, Ne.symm hname]
        · rw [if_neg hqp]
    · rw [hprofiles, lookup_profilesWithout]
      split_ifs with hname hempty
      · simp
      · simpa using hempty
      · exact hw.nonempty name'
    · rw [hshmem, mem_shmemWithout] at hq
      rw [hprofiling, if_neg (fun hqp => hq.2.1 (by rw [hqp]))]
      exact hw.recordLog q hq.1

theorem Indexed.reloaded (h : Reloaded w w') : Indexed w' where
  profiled name p := by
    rw [h.profiles]
    simp only [World.profiling_iff, h.sessions]
    constructor
    · rintro ⟨hp, s, hs, hn⟩
      exact ⟨s.clientUid, s, by rw [if_pos hp, hs], hn, rfl⟩
    · rintro ⟨uid, s, hs, hn, -⟩
      split_ifs at hs with hp
      exact ⟨hp, s, hs, hn⟩
  nonempty := h.nonempty
  recordLog p hp := by
    obtain ⟨_, _, _, _, rfl⟩ := h.rest
    cases hp

theorem Indexed.around (hw : Indexed w) (h : Around w w') : Indexed w' := by
  obtain ⟨_, _, _, _, _, rfl⟩ := h.rest
  exact ⟨hw.profiled, hw.nonempty, hw.recordLog⟩

theorem Fresh.indexed (h : Fresh w) : Indexed w where
  profiled name p := by simp [h.profiles, World.profiling, h.sessions]
  nonempty name := by simp [h.profiles]
  recordLog p hp := by
    rw [h.shmem] at hp
    cases hp

end Indexed

end Geopm
