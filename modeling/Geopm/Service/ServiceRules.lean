import Geopm.Service.Effects

/-!
# What the private methods of `PlatformService` do

One rule for each method, as in `SessionRules`.  `wp_closeSessionCompletely` is the central one: a
session is closed outside of every lock context.  Inside one, its record is removed before the
method raises (`wp_closeSessionCompletely_nested`).
-/

namespace Geopm

open Prog
open World (restored setAside quiet released asideAfter ended stopped batchOf lockFile unlocked)

/-! ### Lock contexts -/

variable {α : Type} {E : PyErr → World → Prop} {w : World} {p : Pid}

namespace WriteLock

variable {Q : α → World → Prop}

theorem wp_withLock {body : Py α} (hact : w.isFileActive = false)
    (h : wp body (fun a w' => w'.isFileActive = true ∧ Q a (w'.setActive false))
      (fun e w' => w'.isFileActive = true ∧ E e (w'.setActive false)) (w.setActive true)) :
    wp (withLock body) Q E w := by
  rw [withLock, wp_bind, rpcLock, wp_bind, wp_get, wp_ite]
  refine ⟨fun hb => by simp [hact] at hb, fun _ => ?_⟩
  rw [wp_set, wp_tryFinally]
  have hunlock : ∀ {β : Type} {R : World → Prop} {w' : World},
      w'.isFileActive = true ∧ R (w'.setActive false) →
      ∀ {F : PyErr → World → Prop}, wp rpcUnlock (fun _ => R) F w' := by
    rintro _ R w' ⟨hb, hR⟩ F
    rw [rpcUnlock, wp_bind, wp_get, wp_ite]
    exact ⟨fun _ => hR, fun hb' => absurd hb hb'⟩
  exact wp_mono h (fun a w' hw' => hunlock (β := α) hw') fun e w' hw' => hunlock (β := α) hw'

theorem wp_withLock_nested {body : Py α} (hact : w.isFileActive = true) :
    wp (withLock body) Q E w ↔ E (.runtimeError
      "Attempt to modify control lock file while file lock is held by the same process")
      w.countNested := by
  rw [withLock, wp_bind, rpcLock, wp_bind, wp_get, wp_ite]
  exact ⟨fun h => h.1 hact, fun h => ⟨fun _ => h, fun hn => absurd hact hn⟩⟩

@[simp] theorem wp_tryLock_none {Q : Option PidArg → World → Prop} {name : LockName} :
    wp (tryLock name none) Q E w ↔ Q ((w.lockFile name).map .pid) w := by
  rw [tryLock, wp_bind, wp_get]
  cases w.lockFile name <;> rfl

theorem wp_tryLock_some {Q : Option PidArg → World → Prop} {name : LockName}
    (hfree : w.lockFile name = none) :
    wp (tryLock name (some (.pid p))) Q E w ↔
      Q (some (.pid p)) (w.setLockFile name (some p)) := by
  rw [tryLock, wp_bind, wp_get, hfree]
  rfl

theorem wp_unlock {Q : Unit → World → Prop} {name : LockName} (hp : w.lockFile name = some p) :
    wp (unlock name (.pid p)) Q E w ↔ Q () (w.setLockFile name none) := by
  rw [unlock, wp_bind, wp_get, hp]
  simp

end WriteLock

namespace PlatformService

variable {Q : α → World → Prop} {s : Session} {Q : Unit → World → Prop}

/-- The state after `pio.restore_control_dir`. -/
theorem wp_restoreControlDir (hsave : w.saveFiles ≠ none)
    (hQ : w.outcomes.restoreFails = none → Q () (w.withSettings w.restored))
    (hE : w.outcomes.restoreFails ≠ none → ∀ msg,
      E (.runtimeError msg) (w.withSettings w.restored)) :
    wp Pio.restoreControlDir Q E w := by
  obtain ⟨saved, hsaved⟩ := Option.ne_none_iff_exists'.mp hsave
  rw [Pio.restoreControlDir, wp_bind, wp_get]
  cases hfail : w.outcomes.restoreFails with
  | none =>
    have hq := hQ hfail
    rw [restored, hsaved, hfail] at hq
    rwa [hsaved]
  | some partly =>
    have he := hE (by rw [hfail]; simp) w.outcomes.message
    rw [restored, hsaved, hfail] at he
    rwa [hsaved]

theorem wp_restoreSaved {Q : Bool → World → Prop} (hsave : w.saveFiles ≠ none)
    (hQ : w.outcomes.restoreFails = none → Q true (w.withSettings w.restored))
    (hQ' : w.outcomes.restoreFails ≠ none → ∀ j, w.journal.Logs j [] →
      Q false ((w.withSettings w.restored).quiet j)) : wp (restoreSaved p) Q E w := by
  rw [restoreSaved, wp_tryCatch, wp_bind]
  refine wp_restoreControlDir hsave (fun h => hQ h) fun h msg => ?_
  exact hQ' h _ (.then_note (.refl _) _)

theorem wp_renameSaveFiles {dir : String} (hsave : w.saveFiles ≠ none) :
    wp (renameSaveFiles dir) Q E w ↔ Q () (w.setAside dir) := by
  obtain ⟨saved, hsaved⟩ := Option.ne_none_iff_exists'.mp hsave
  rw [renameSaveFiles, wp_modify, hsaved]
  simp only [setAside, hsaved]

/-- `_close_session_write`, by the owner of the lock. -/
theorem wp_closeSessionWrite (hlock : w.controlLock = some p)
    (hQ : ∀ j dir, w.journal.Logs j (Effect.releaseLogs w p dir) →
      Q () ((w.released dir).quiet j)) : wp (closeSessionWrite p) Q E w := by
  rw [closeSessionWrite, wp_bind, wp_get, wp_bind]
  cases hsave : w.saveFiles with
  | none =>
    rw [if_neg (by simp), wp_warn, WriteLock.wp_unlock (by exact hlock)]
    cases w
    cases hsave
    exact hQ _ "" (.warn _ _)
  | some saved =>
    have hne : w.saveFiles ≠ none := by rw [hsave]; simp
    rw [if_pos (by simp), wp_bind]
    refine wp_restoreSaved hne (fun hok => ?_) fun hfail j hlog => ?_
    · rw [wp_bind, wp_uuid4, wp_bind, wp_renameSaveFiles (by exact hne), if_pos rfl, wp_bind]
      refine (WriteLock.wp_unlock (by exact hlock)).mpr ?_
      have hj := hQ { w.journal with uuids := w.journal.uuids + 1, writePid := none }
        (delDir p s!"{w.journal.uuids}") (by
          rw [Effect.releaseLogs, hsave, hok]
          exact .of_stderr rfl)
      convert hj using 1
      simp [World.setLockFile, quiet, released, restored, asideAfter, hsave,
        hok, setAside, World.withSettings]
    · obtain ⟨partly, hpartly⟩ := Option.ne_none_iff_exists'.mp hfail
      rw [wp_bind, wp_uuid4, wp_bind, wp_renameSaveFiles (by exact hne), if_neg (by simp), wp_warn]
      refine (WriteLock.wp_unlock (by exact hlock)).mpr ?_
      have hj := hQ { j with
          uuids := j.uuids + 1
          stderr := j.stderr ++ [notRestored p (delDir p s!"{j.uuids}")] }
        (delDir p s!"{j.uuids}") (by
          rw [Effect.releaseLogs, hsave, hpartly]
          exact (hlog.then_warn _).then_stderr rfl)
      convert hj using 1
      simp [World.setLockFile, quiet, released, restored, asideAfter, hsave,
        hpartly, setAside, World.withSettings]

variable {v : Pid}

theorem wp_pioStopBatchServer :
    wp (Pio.stopBatchServer v) Q E w ↔
      (w.outcomes.stopFails v = true → E (.runtimeError w.outcomes.message) w) ∧
      (w.outcomes.stopFails v = false → Q () (w.withServers (w.servers.erase v))) := by
  rw [Pio.stopBatchServer, wp_bind, wp_get, wp_ite, Bool.not_eq_true]
  rfl

/-- A process that is not in `_batch_subp` is not waited for: the result is an exception. -/
theorem wp_reapBatchServer {Q : Option PyErr → World → Prop} {r : Option PyErr}
    (hQ : ∀ j r', w.journal.Logs j [] → (v ∉ w.batchSubp → r' ≠ none) →
      Q r' ((if v ∈ w.batchSubp then w.ended v else w).quiet j)) :
    wp (reapBatchServer v r) Q E w := by
  rw [reapBatchServer, wp_bind, wp_get, wp_ite]
  refine ⟨fun hv => ?_, fun hv => ?_⟩
  · simp only [if_pos hv, wp_bind, wp_modify, communicate, wp_get, wp_pure, warnExit, wp_ite,
      wp_warn] at hQ ⊢
    exact ⟨fun _ => hQ _ r (.then_note (.refl _) _) (fun h => absurd hv h),
      fun _ => hQ _ r (.refl _) (fun h => absurd hv h)⟩
  · simp only [if_neg hv] at hQ
    exact hQ w.journal _ (.refl _) (fun _ => by simp)

/-- `_stop_batch_server` always returns. -/
theorem wp_stopBatchServer {Q : Option PyErr → World → Prop}
    (hQ : ∀ j r, w.journal.Logs j [] → (v ∉ w.batchSubp → r ≠ none) →
      Q r ((w.stopped v).quiet j)) : wp (stopBatchServer v) Q E w := by
  rw [stopBatchServer, wp_bind, wp_tryCatch, wp_bind, wp_pioStopBatchServer]
  refine ⟨fun hfail => ?_, fun hok => ?_⟩
  · refine wp_reapBatchServer fun j r hlog hr => ?_
    have hstopped : (if v ∈ w.batchSubp then w.ended v else w) = w.stopped v := by
      split_ifs with hv
      · simp [ended, stopped, hv]
      · simp [stopped, hv, hfail]
    rw [hstopped]
    exact hQ j r hlog hr
  · refine wp_reapBatchServer fun j r hlog hr => ?_
    have hstopped : (if v ∈ w.batchSubp then (w.withServers (w.servers.erase v)).ended v
        else w.withServers (w.servers.erase v)) = w.stopped v := by
      split_ifs with hv
      · simp [ended, stopped, World.withServers, hv, Dict.erase_of_notMem,
          AList.mem_erase]
      · simp [stopped, World.withServers, hv, hok]
    rw [World.withServers_batchSubp, hstopped]
    exact hQ j r hlog hr

theorem stopped_of_child (hv : v ∈ w.batchSubp) : w.stopped v = w.ended v := by
  simp [stopped, ended, hv]

theorem stopped_killed (hv : v ∉ w.batchSubp) : (w.stopped v).killed v = w.ended v := by
  have herase : ((w.servers.erase v).erase v : Dict Pid BatchServer) = w.servers.erase v :=
    Dict.erase_of_notMem _ _ (by simp [AList.mem_erase])
  simp only [ended, stopped, World.killed, hv, if_false, false_or]
  split_ifs <;> simp [herase]

theorem stopped_of_dead (hok : ServersOk w) (hv : v ∉ w.batchSubp) (hp : v ∉ w.procs) :
    w.stopped v = w.ended v := by
  have hserver : v ∉ w.servers := fun h => hp (hok v h)
  simp [ended, stopped, hv, Dict.erase_of_notMem _ _ hp,
    Dict.erase_of_notMem _ _ hserver]

/-- The batch server of a session that is being closed ends, whatever `pio` says. -/
theorem wp_closeBatchServer (hok : ServersOk w)
    (hs : w.sessions.lookup p = some s)
    (hQ : ∀ j, w.journal.Logs j [] → Q () ((match s.batchServer with
      | none => w
      | some v => w.ended v).quiet j)) : wp (closeBatchServer p) Q E w := by
  rw [closeBatchServer, wp_bind, ActiveSessions.getBatchServer, ActiveSessions.wp_getMember hs]
  cases hb : s.batchServer with
  | none =>
    rw [hb] at hQ
    exact hQ w.journal (.refl _)
  | some v =>
    simp only [hb] at hQ
    rw [wp_bind]
    refine wp_stopBatchServer fun j r hlog hr => ?_
    cases r with
    | none =>
      rw [stopped_of_child (by_contra fun hv => hr hv rfl)]
      exact hQ j hlog
    | some ex =>
      rw [wp_bind, wp_warn, wp_bind, wp_pidExists, wp_ite]
      simp only [World.quiet_procs, World.stopped_procs, decide_eq_true_eq]
      refine ⟨fun hv => ?_, fun hv => ?_⟩
      · have hsubp : v ∉ w.batchSubp := fun hmem => by simp [hmem, AList.mem_erase] at hv
        change Q () (((w.stopped v).killed v).quiet _)
        rw [stopped_killed hsubp]
        exact hQ _ (hlog.then_note _)
      · by_cases hsubp : v ∈ w.batchSubp
        · rw [stopped_of_child hsubp]
          exact hQ _ (hlog.then_note _)
        · rw [if_neg hsubp] at hv
          rw [stopped_of_dead hok hsubp hv]
          exact hQ _ (hlog.then_note _)

/-- The state when the batch server of `p` has ended. -/
def batchEnded (w : World) (p : Pid) : World :=
  match w.batchOf p with
  | none => w
  | some v => w.ended v

theorem wp_endSession (hok : ServersOk w)
    (hQ : ∀ j, w.journal.Logs j [] → Q () ((batchEnded w p).quiet j)) :
    wp (endSession p) Q E w := by
  rw [endSession, wp_bind, ActiveSessions.wp_getClients, wp_ite, mem_pySorted, AList.mem_keys.symm]
  refine ⟨fun hp => ?_, fun hp => ?_⟩
  · obtain ⟨s, hs⟩ := (Dict.mem_iff _ _).mp hp
    rw [wp_bind, ActiveSessions.getWatchId, ActiveSessions.wp_getMember hs, wp_bind, sourceRemove,
      wp_modify]
    refine wp_closeBatchServer (s := s) (by exact hok) (by exact hs) fun j hlog => ?_
    have hj := hQ j hlog
    rw [batchEnded, batchOf, hs, Option.bind_some] at hj
    cases hb : s.batchServer <;> rw [hb] at hj <;> exact hj
  · have hj := hQ w.journal (.refl _)
    rwa [batchEnded, batchOf, (Dict.notMem_iff _ _).mp hp] at hj

theorem batchEnded_dropSession : (batchEnded w p).dropSession p = w.removed p := by
  cases hb : w.batchOf p <;>
    simp only [batchEnded, hb, World.removed, World.without, World.subpWithout] <;> rfl

theorem wp_closeWriter (hact : w.isFileActive = false)
    (hQ : w.controlLock = some p → ∀ j dir, w.journal.Logs j (Effect.releaseLogs w p dir) →
      Q () ((w.released dir).quiet j))
    (hQ' : w.controlLock ≠ some p → Q () w) : wp (closeWriter p) Q E w := by
  have hinactive : w.setActive false = w := by rw [← hact]; rfl
  refine WriteLock.wp_withLock hact ?_
  rw [wp_bind, WriteLock.wp_tryLock_none, wp_ite]
  refine ⟨fun hlock => ?_, fun hlock => ?_⟩
  · have hlock' : w.controlLock = some p := by simpa [lockFile] using hlock
    refine wp_closeSessionWrite (by exact hlock') fun j dir hlog => ⟨rfl, ?_⟩
    have hj := hQ hlock' j dir hlog
    rw [← hinactive] at hj
    exact hj
  · have hlock' : w.controlLock ≠ some p := fun h => hlock (by simp [lockFile, h])
    refine ⟨rfl, ?_⟩
    have hj := hQ' hlock'
    rw [← hinactive] at hj
    exact hj

theorem wp_closeProfiler (hact : w.isFileActive = false)
    (hQ : w.profilerLock = some p → Q () (w.withProfilerLock none))
    (hQ' : w.profilerLock ≠ some p → Q () w) : wp (closeProfiler p) Q E w := by
  have hinactive : w.setActive false = w := by rw [← hact]; rfl
  refine WriteLock.wp_withLock hact ?_
  rw [wp_bind, WriteLock.wp_tryLock_none, wp_ite]
  refine ⟨fun hlock => ?_, fun hlock => ?_⟩
  · have hlock' : w.profilerLock = some p := by simpa [lockFile] using hlock
    refine (WriteLock.wp_unlock (by exact hlock')).mpr ⟨rfl, ?_⟩
    have hj := hQ hlock'
    rw [← hinactive] at hj
    exact hj
  · have hlock' : w.profilerLock ≠ some p := fun h => hlock (by simp [lockFile, h])
    refine ⟨rfl, ?_⟩
    have hj := hQ' hlock'
    rw [← hinactive] at hj
    exact hj

/-- Both locks of a PID are released. -/
theorem wp_closeLocks (hact : w.isFileActive = false)
    (hQ : ∀ j dir, w.journal.Logs j (Effect.logs w (.close p dir)) →
      Q () ((w.unlocked p dir).quiet j)) :
    wp (do closeWriter p; closeProfiler p) Q E w := by
  -- the second lock, when the first one has been dealt with
  have hprofiler : ∀ w' : World, w'.isFileActive = false → w'.profilerLock = w.profilerLock →
      Q () { w' with profilerLock := if w.profilerLock = some p then none else w.profilerLock } →
      wp (closeProfiler p) Q E w' := by
    intro w' hact' hlock hw'
    refine wp_closeProfiler hact' (fun hp => ?_) fun hp => ?_
    · rwa [← hlock, if_pos hp] at hw'
    · rwa [← hlock, if_neg hp] at hw'
  rw [wp_bind]
  refine wp_closeWriter hact (fun hp j dir hlog => ?_) fun hp => ?_
  · refine hprofiler _ hact rfl ?_
    have hj := hQ j dir (by rwa [Effect.logs, if_pos hp])
    simp only [unlocked, if_pos hp] at hj
    exact hj
  · refine hprofiler _ hact rfl ?_
    have hj := hQ w.journal "" (by rw [Effect.logs, if_neg hp]; exact .refl _)
    simp only [unlocked, if_neg hp] at hj
    exact hj

theorem wp_removeSession {rest : Py Unit} (hok : Sane w)
    (hQ : ∀ j, w.journal.Logs j [] → wp rest Q E ((w.removed p).quiet j)) :
    wp (do endSession p; ActiveSessions.removeClient p; rest) Q E w := by
  rw [wp_bind]
  refine wp_endSession hok.servers fun j hj => ?_
  rw [wp_bind]
  refine ActiveSessions.wp_removeClient ?_ fun j' hj' => ?_
  · exact hok.profiles.of_eq (by cases h : w.batchOf p <;> simp [batchEnded, h])
      (by cases h : w.batchOf p <;> simp [batchEnded, h])
  · have hremoved : (((batchEnded w p).quiet j).dropSession p).quiet j' =
        (w.removed p).quiet j' := by
      rw [← batchEnded_dropSession]
      rfl
    rw [hremoved]
    exact hQ j' (hj.trans hj')

theorem wp_closeSessionCompletely (hok : Sane w)
    (hact : w.isFileActive = false)
    (hQ : ∀ j dir, w.journal.Logs j (Effect.logs w (.close p dir)) →
      Q () (((w.removed p).unlocked p dir).quiet j)) :
    wp (closeSessionCompletely p) Q E w := by
  refine wp_removeSession hok fun j hj => wp_closeLocks (by exact hact) fun j' dir hj' => ?_
  exact hQ j' dir (hj.trans hj')

theorem wp_closeSessionCompletely_nested (hok : Sane w)
    (hact : w.isFileActive = true)
    (hE : ∀ j msg, w.journal.Logs j [] →
      E (.runtimeError msg) (((w.removed p).countNested).quiet j)) :
    wp (closeSessionCompletely p) Q E w := by
  refine wp_removeSession hok fun j hj => ?_
  rw [wp_bind, closeWriter]
  exact (WriteLock.wp_withLock_nested (by exact hact)).mpr (hE j _ hj)

theorem wp_popenGeopmbatch {Q : Pid × String → World → Prop} {client : Pid}
    {signals controls : List Request}
    (hE : ∀ e, E e w)
    (hbroken : ∀ v proc, w.outcomes.popen = some (v, proc) → w.outcomes.batchKey = none →
      E .brokenPipe (w.broken v proc signals controls))
    (hQ : ∀ v proc key, w.outcomes.popen = some (v, proc) → w.outcomes.batchKey = some key →
      Q (v, key) (w.started client v proc signals controls)) :
    wp (popenGeopmbatch client signals controls) Q E w := by
  rw [popenGeopmbatch, wp_bind, wp_get]
  cases hpopen : w.outcomes.popen with
  | none => exact hE _
  | some vp =>
    obtain ⟨v, proc⟩ := vp
    dsimp only
    cases hkey : w.outcomes.batchKey with
    | none => exact hbroken v proc hpopen hkey
    | some key => exact hQ v proc key hpopen hkey

end PlatformService

end Geopm
