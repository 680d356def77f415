import Geopm.Service.Table

/-!
# The session files across a restart

* `Restored` : what reading the files back preserves; `SurvivesRestart` : it does, and every file is
  valid;
* `Timely` : processes are recorded after they have been created, as the clock sees it;
* `Regular` : the reference counts stay what they count, and ends of profiles are written;
* `survivesRestart_of_reachable` : in every such run, every state survives a restart.
-/

namespace Geopm

open Prog
open Option

/-- For each client, the creation time of the process that was last recorded as its batch server. -/
abbrev ServerTimes := Pid → Option ℕ

/-- A recorded batch server is the process that had its PID at that time. -/
def ServerTimes.update (w : World) : TableAction → World → ServerTimes → ServerTimes
  | .call (.setBatchServer p v), _, times =>
    if (w.sessions.lookup p).map Session.batchServer = some none then
      Function.update times p ((w.procs.lookup v).map Proc.createTime)
    else times
  | _, _, times => times

/-- The table, with the creation times of the recorded batch servers as a history variable. -/
def tableTimes : Lts (World × ServerTimes) TableAction := table.record ServerTimes.update

/-- The table `w'` has been restored from the files of `w`. -/
structure Restored (w : World) (times : ServerTimes) (w' : World) : Prop where
  /-- A client that is still the process that opened its session has the same record; the batch
  server is in it if that process is alive, and no other one is. -/
  same : ∀ p s pi, w.sessions.lookup p = some s → w.procs.lookup p = some pi →
    pi.createTime = s.createTime → ∃ b, w'.sessions.lookup p = some { s with batchServer := b } ∧
      (∀ v pv, s.batchServer = some v → w.procs.lookup v = some pv →
        times p = some pv.createTime → b = some v) ∧
      ∀ v, b = some v → s.batchServer = some v ∧ v ∈ w.procs
  /-- A session is restored only for a process that started before the file was written. -/
  older : ∀ p s', w'.sessions.lookup p = some s' → ∃ s file pi, w.sessions.lookup p = some s ∧
    w.sessionFiles.lookup p = some file ∧ w.procs.lookup p = some pi ∧ pi.createTime < file.ctime

/-- The files are valid, and the constructor restores the sessions from them. -/
structure SurvivesRestart (w : World) (times : ServerTimes) : Prop where
  valid : ∀ p file, w.sessionFiles.lookup p = some file →
    Json.validate activeSessionsSchema file.contents = true
  restored : ∃ w', ActiveSessions.init w = .ok () w' ∧ Restored w times w'

/-- A process that is recorded was created before its file is written. -/
def Timely (w : World) : TableAction → Prop
  | .call (.addClient p _ _ _) => ∀ pi, w.procs.lookup p = some pi → pi.createTime < w.now
  | .call (.setBatchServer _ v) => ∀ pi, w.procs.lookup v = some pi → pi.createTime < w.now
  | _ => True

/-- A reference count does not become negative, and the end of a profile is written to the file. -/
def Regular (w : World) : TableAction → Prop
  | .call (.setReferenceCount _ n) => 0 ≤ n
  | .call (.decrementReferenceCount p) =>
    ∀ s, w.sessions.lookup p = some s → 1 ≤ s.referenceCount
  | .call (.stopProfile _ _ doUpdate) => doUpdate = true
  | _ => True

/-! ### The files mirror the table -/

/-- The files hold exactly the records of the sessions, and are newer than what they record. -/
structure Synced (w : World) (times : ServerTimes) : Prop where
  mirrored : ∀ p, (w.sessionFiles.lookup p).map SessionFile.contents =
    (w.sessions.lookup p).map Session.toJson
  clientPid : ∀ p s, w.sessions.lookup p = some s → s.clientPid = p
  count : ∀ p s, w.sessions.lookup p = some s → 0 ≤ s.referenceCount
  client : ∀ p s file, w.sessions.lookup p = some s → w.sessionFiles.lookup p = some file →
    s.createTime < file.ctime ∧ file.ctime ≤ w.now
  server : ∀ p t, times p = some t → t < w.now ∧
    ∀ file, w.sessionFiles.lookup p = some file → t < file.ctime

variable {w w' : World} {times : ServerTimes} {p : Pid} {s : Session}

namespace Synced

section

variable (h : Synced w times)
include h

/-- The file of a session. -/
theorem file (hs : w.sessions.lookup p = some s) :
    ∃ t, w.sessionFiles.lookup p = some ⟨s.toJson, t⟩ ∧ s.createTime < t ∧ t ≤ w.now := by
  have hmirror := h.mirrored p
  rw [hs, map_some, map_eq_some_iff] at hmirror
  obtain ⟨⟨contents, t⟩, hfile, rfl⟩ := hmirror
  exact ⟨t, hfile, h.client p s _ hs hfile⟩

theorem session {file : SessionFile}
    (hfile : w.sessionFiles.lookup p = some file) :
    ∃ s, w.sessions.lookup p = some s ∧ file.contents = s.toJson := by
  have hmirror := h.mirrored p
  rw [hfile, map_some, eq_comm, map_eq_some_iff] at hmirror
  obtain ⟨s, hs, hcontents⟩ := hmirror
  exact ⟨s, hs, hcontents.symm⟩

theorem filesOk : FilesOk w := by
  intro p file hfile
  obtain ⟨s, hs, hcontents⟩ := h.session hfile
  exact ⟨s, hcontents, h.clientPid p s hs⟩

theorem same (hs : w'.sessions = w.sessions)
    (hf : w'.sessionFiles = w.sessionFiles) (hnow : w.now ≤ w'.now) : Synced w' times where
  mirrored := by rw [hs, hf]; exact h.mirrored
  clientPid := by rw [hs]; exact h.clientPid
  count := by rw [hs]; exact h.count
  client p s file hp hfile := by
    rw [hs] at hp
    rw [hf] at hfile
    obtain ⟨hlt, hle⟩ := h.client p s file hp hfile
    exact ⟨hlt, hle.trans hnow⟩
  server p t ht := by
    obtain ⟨hlt, hfile⟩ := h.server p t ht
    exact ⟨hlt.trans_le hnow, by rw [hf]; exact hfile⟩

theorem record {t : Session} (hs : w'.sessions = w.sessions.insert p t)
    (hf : w'.sessionFiles = w.sessionFiles.insert p ⟨t.toJson, w.now⟩) (hnow : w'.now = w.now)
    (hpid : t.clientPid = p) (hcount : 0 ≤ t.referenceCount) (htime : t.createTime < w.now) :
    Synced w' times where
  mirrored q := by
    rw [hs, hf, Dict.lookup_insert_eq, Dict.lookup_insert_eq]
    split_ifs
    · rfl
    · exact h.mirrored q
  clientPid q u hu := by
    rw [hs, Dict.lookup_insert_eq] at hu
    split_ifs at hu with hq
    · cases hu
      rw [hpid, hq]
    · exact h.clientPid q u hu
  count q u hu := by
    rw [hs, Dict.lookup_insert_eq] at hu
    split_ifs at hu with hq
    · cases hu
      exact hcount
    · exact h.count q u hu
  client q u file hu hfile := by
    rw [hs, Dict.lookup_insert_eq] at hu
    rw [hf, Dict.lookup_insert_eq] at hfile
    rw [hnow]
    split_ifs at hu hfile with hq
    · cases hu
      cases hfile
      exact ⟨htime, le_rfl⟩
    · exact h.client q u file hu hfile
  server q u hu := by
    obtain ⟨hlt, hold⟩ := h.server q u hu
    rw [hnow, hf]
    refine ⟨hlt, fun file hfile => ?_⟩
    rw [Dict.lookup_insert_eq] at hfile
    split_ifs at hfile with hq
    · cases hfile
      exact hlt
    · exact hold file hfile

theorem remove (hs : w'.sessions = w.sessions.erase p)
    (hf : w'.sessionFiles = w.sessionFiles.erase p) (hnow : w'.now = w.now) :
    Synced w' times where
  mirrored q := by
    rw [hs, hf, Dict.lookup_erase_eq, Dict.lookup_erase_eq]
    split_ifs
    · rfl
    · exact h.mirrored q
  clientPid q u hu := by
    rw [hs, Dict.lookup_erase_eq] at hu
    split_ifs at hu
    exact h.clientPid q u hu
  count q u hu := by
    rw [hs, Dict.lookup_erase_eq] at hu
    split_ifs at hu
    exact h.count q u hu
  client q u file hu hfile := by
    rw [hs, Dict.lookup_erase_eq] at hu
    rw [hf, Dict.lookup_erase_eq] at hfile
    rw [hnow]
    split_ifs at hu hfile
    exact h.client q u file hu hfile
  server q u hu := by
    obtain ⟨hlt, hold⟩ := h.server q u hu
    rw [hnow, hf]
    refine ⟨hlt, fun file hfile => ?_⟩
    rw [Dict.lookup_erase_eq] at hfile
    split_ifs at hfile
    exact hold file hfile

theorem rewrite {t : Session} (hold : w.sessions.lookup p = some s)
    (hs : w'.sessions = w.sessions.insert p t)
    (hf : w'.sessionFiles = w.sessionFiles.insert p ⟨t.toJson, w.now⟩) (hnow : w'.now = w.now)
    (hkeeps : s.Keeps t) (hcount : 0 ≤ t.referenceCount) : Synced w' times := by
  obtain ⟨c, -, hlt, hle⟩ := h.file hold
  refine h.record hs hf hnow (hkeeps.clientPid.trans (h.clientPid p s hold)) hcount ?_
  rw [hkeeps.client.2.2]
  exact hlt.trans_le hle

end

end Synced

/-! ### Calls -/

theorem TableCall.keeps_change (r : TableCall) (s : Session) : s.Keeps (r.change s) := by
  cases r <;> exact .of_members

section Calls

variable {r : TableCall}

theorem count_change {s : Session} (h : Synced w times) (hreg : Regular w (.call r))
    (hs : w.sessions.lookup r.client = some s) : 0 ≤ (r.change s).referenceCount := by
  have hcount := h.count _ s hs
  cases r with
  | setReferenceCount p n => exact hreg
  | incrementReferenceCount p =>
    change 0 ≤ s.referenceCount + 1
    omega
  | decrementReferenceCount p =>
    have hone : 1 ≤ s.referenceCount := hreg s hs
    change 0 ≤ s.referenceCount - 1
    omega
  | _ => exact hcount

theorem Synced.did (hidx : Indexed w) (h : Synced w times) (htime : Timely w (.call r))
    (hreg : Regular w (.call r)) (hdid : Did w r w') : Synced w' times := by
  cases hdid with
  | quiet _ j => exact h.same rfl rfl le_rfl
  | added hp hpi => exact h.record rfl rfl rfl rfl Int.one_nonneg (htime _ hpi)
  | changed j hs =>
    exact h.rewrite hs rfl rfl rfl (r.keeps_change _) (count_change h hreg hs)
  | @started p s pi name hs hn hpi =>
    exact h.rewrite hs rfl rfl rfl .of_members (h.count _ s hs)
  | startedHalf hs hn hpi hlog => exact absurd hlog (hidx.recordLog_free hs hn _ _)
  | @stopped p s name regionNames doUpdate j hs hn =>
    -- only `remove_client` leaves the file out of date, for a moment
    obtain rfl : doUpdate = true := hreg
    exact h.rewrite hs rfl rfl rfl .of_members (h.count _ s hs)
  | removed j => exact h.remove rfl rfl rfl

theorem setBatchServer_step {p v : Pid} (h : table.step w (.call (.setBatchServer p v)) w')
    (hopen : (w.sessions.lookup p).map Session.batchServer = some none) :
    ∃ s : Session, w' = w.record p { s with batchServer := some v } := by
  obtain ⟨s, hs, hb⟩ := map_eq_some_iff.mp hopen
  refine ⟨s, ?_⟩
  cases (show some (final (TableCall.setBatchServer p v).run w) = some w' from h)
  exact wp_final.mp ((ActiveSessions.wp_setBatchServer (E := fun _ u => u = w.record p _) hs hb).mpr
    rfl)

theorem Synced.update (h : Synced w' times) (htime : Timely w (.call r))
    (hst : table.step w (.call r) w') :
    Synced w' (ServerTimes.update w (.call r) w' times) := by
  cases r with
  | setBatchServer p v =>
    unfold ServerTimes.update
    dsimp only
    split_ifs with hopen
    · obtain ⟨s, rfl⟩ := setBatchServer_step hst hopen
      refine ⟨h.mirrored, h.clientPid, h.count, h.client, fun q t ht => ?_⟩
      by_cases hq : q = p
      · subst hq
        rw [Function.update_self, map_eq_some_iff] at ht
        obtain ⟨pi, hpi, rfl⟩ := ht
        refine ⟨htime pi hpi, fun file hfile => ?_⟩
        rw [World.record_sessionFiles, AList.lookup_insert] at hfile
        cases hfile
        exact htime pi hpi
      · rw [Function.update_of_ne hq] at ht
        exact h.server q t ht
    · exact h
  | _ => exact h

end Calls

/-! ### Restarts -/

section Restarts

theorem pidValid_iff {t : ℕ} : w.pidValid p t = true ↔
    ∃ pi, w.procs.lookup p = some pi ∧ pi.createTime < t := by
  unfold World.pidValid
  cases w.procs.lookup p <;> simp

section

variable (h : Synced w times)
include h

theorem Synced.loaded {t : ℕ} (hs : w.sessions.lookup p = some s)
    (hfile : w.sessionFiles.lookup p = some ⟨s.toJson, t⟩) :
    w.loaded p = if w.pidValid p t = true then some (w.revived s t) else none := by
  rw [World.loaded, hfile, bind_some, ActiveSessions.parseSession_toJson,
    if_pos (h.count p s hs), bind_some, h.clientPid p s hs]

theorem Synced.of_loaded (hs : w.loaded p = some s) :
    ∃ u t pi, w.sessions.lookup p = some u ∧ w.sessionFiles.lookup p = some ⟨u.toJson, t⟩ ∧
      w.procs.lookup p = some pi ∧ pi.createTime < t ∧ s = w.revived u t := by
  have hmem : w.sessionFiles.lookup p ≠ none := by
    intro hnone
    rw [World.loaded, hnone] at hs
    cases hs
  obtain ⟨⟨contents, t⟩, hfile⟩ := ne_none_iff_exists'.mp hmem
  obtain ⟨u, hu, hcontents⟩ := h.session hfile
  dsimp only at hcontents
  subst hcontents
  rw [h.loaded hu hfile] at hs
  split_ifs at hs with hvalid
  obtain ⟨pi, hpi, hlt⟩ := pidValid_iff.mp hvalid
  exact ⟨u, t, pi, hu, hfile, hpi, hlt, (Option.some.inj hs).symm⟩

theorem Synced.reloaded (hre : Reloaded w w') : Synced w' times := by
  have hnow : w'.now = w.now := by
    obtain ⟨_, _, _, _, rfl⟩ := hre.rest
    rfl
  refine ⟨fun q => ?_, fun q u hu => ?_, fun q u hu => ?_, fun q u file hu hfile => ?_,
    fun q t ht => ⟨hnow ▸ (h.server q t ht).1, fun file hfile => ?_⟩⟩
  · rw [hre.lookup, hre.file, map_map]
    rfl
  · rw [hre.lookup] at hu
    obtain ⟨s, _, _, hs, -, -, -, rfl⟩ := h.of_loaded hu
    exact h.clientPid q s hs
  · rw [hre.lookup] at hu
    obtain ⟨s, _, _, hs, -, -, -, rfl⟩ := h.of_loaded hu
    exact h.count q s hs
  · rw [hre.lookup] at hu
    rw [hre.file, hu] at hfile
    cases hfile
    obtain ⟨s, t, _, hs, hold, -, -, rfl⟩ := h.of_loaded hu
    obtain ⟨hlt, hle⟩ := h.client q s _ hs hold
    rw [hnow]
    exact ⟨lt_of_lt_of_le hlt hle, le_rfl⟩
  · rw [hre.file, map_eq_some_iff] at hfile
    obtain ⟨_, -, rfl⟩ := hfile
    exact (h.server q t ht).1

theorem Synced.restored (hre : Reloaded w w') : Restored w times w' where
  same p s pi hs hpi htime := by
    obtain ⟨t, hfile, hlt, hle⟩ := h.file hs
    have hvalid : w.pidValid p t = true := pidValid_iff.mpr ⟨pi, hpi, htime ▸ hlt⟩
    refine ⟨(w.revived s t).batchServer, ?_, fun v pv hb hpv hv => ?_, fun v hb => ?_⟩
    · rw [hre.lookup, h.loaded hs hfile, if_pos hvalid]
      rfl
    · have hserver := (h.server p pv.createTime hv).2 _ hfile
      rw [World.revived, hb, filter_some, if_pos (pidValid_iff.mpr ⟨pv, hpv, hserver⟩)]
    · obtain ⟨hb, hvalid⟩ := filter_eq_some_iff.mp hb
      obtain ⟨pv, hpv, -⟩ := pidValid_iff.mp hvalid
      exact ⟨hb, (Dict.mem_iff _ _).mpr ⟨pv, hpv⟩⟩
  older p s' hs' := by
    rw [hre.lookup] at hs'
    obtain ⟨s, t, pi, hs, hfile, hpi, hlt, -⟩ := h.of_loaded hs'
    exact ⟨s, _, pi, hs, hfile, hpi, hlt⟩

theorem Synced.survivesRestart : SurvivesRestart w times where
  valid p file hfile := by
    obtain ⟨s, hs, hcontents⟩ := h.session hfile
    rw [hcontents, Session.validate_toJson]
    exact decide_eq_true (h.count p s hs)
  restored := by
    have hinit := ActiveSessions.wp_init (Q := fun _ => Reloaded w) (E := fun _ _ => False)
      h.filesOk fun _ hre => hre
    unfold wp at hinit
    cases hrun : ActiveSessions.init w with
    | ok _ w' =>
      rw [hrun] at hinit
      exact ⟨w', rfl, h.restored hinit⟩
    | error e w' =>
      rw [hrun] at hinit
      exact hinit.elim

end

end Restarts

/-! ### All runs -/

theorem Fresh.synced {w : World} (h : Fresh w) : Synced w fun _ => none where
  mirrored p := by simp [h.sessions, h.sessionFiles]
  clientPid p s hs := by
    rw [h.sessions] at hs
    cases hs
  count p s hs := by
    rw [h.sessions] at hs
    cases hs
  client p s file hs := by
    rw [h.sessions] at hs
    cases hs
  server p t ht := by cases ht

/-- **Sessions survive a restart.** In every run, restarts included, whose calls are timely and
regular, every file is valid in every state reached, and reading the files back restores the
sessions. -/
theorem survivesRestart_of_reachable {w₀ : World} {x : World × ServerTimes} (hw₀ : Fresh w₀)
    (h : tableTimes.ReachableIf (fun x a => Timely x.1 a ∧ Regular x.1 a) (w₀, fun _ => none) x) :
    SurvivesRestart x.1 x.2 := by
  have hinv : Indexed x.1 ∧ Synced x.1 x.2 := by
    refine h.invariant (I := fun x => Indexed x.1 ∧ Synced x.1 x.2) ⟨hw₀.indexed, hw₀.synced⟩ ?_
    rintro ⟨w, times⟩ a ⟨w', times'⟩ ⟨hidx, hsync⟩ ⟨htime, hreg⟩ ⟨hst, htimes⟩
    dsimp only at *
    subst htimes
    cases a with
    | call r =>
      have hdid := did_of_step hidx.profilesOk hst
      exact ⟨hidx.reprofiled (hdid.reprofiled hidx),
        (hsync.did hidx htime hreg hdid).update htime hst⟩
    | restart =>
      have hre := reloaded_of_step hsync.filesOk hst
      exact ⟨.reloaded hre, hsync.reloaded hre⟩
    | around a =>
      have haround := around_of_step hst
      refine ⟨hidx.around haround, ?_⟩
      have hnow := haround.now
      obtain ⟨_, _, _, _, _, rfl⟩ := haround.rest
      exact hsync.same rfl rfl hnow
  exact hinv.2.survivesRestart

/-! ### A session with a batch server -/

theorem timely_addClient {p : Pid} {signals controls : List String} {watchId : ℤ} {w : World}
    (h : ∀ x ∈ w.procs.entries, x.2.createTime < w.now) :
    Timely w (.call (.addClient p signals controls watchId)) :=
  fun pi hpi => h ⟨p, pi⟩ (AList.mem_lookup_iff.mp hpi)

/-- The leader opens a session and the child is its batch server. -/
def withServer : World :=
  final (TableCall.setBatchServer 10 11).run
    (final (TableCall.addClient 10 ["SIGNAL"] [] 1).run leaderAndChild)

theorem survivesRestart_withServer : (withServer.sessions.lookup 10).map Session.batchServer =
    some (some 11) ∧ ∃ times, times 10 = some 3 ∧ SurvivesRestart withServer times := by
  have hadd : tableTimes.step (leaderAndChild, fun _ => none)
    (.call (.addClient 10 ["SIGNAL"] [] 1))
    (final (TableCall.addClient 10 ["SIGNAL"] [] 1).run leaderAndChild, fun _ => none) := ⟨rfl, rfl⟩
  have hserver : tableTimes.step
    (final (TableCall.addClient 10 ["SIGNAL"] [] 1).run leaderAndChild, fun _ => none)
    (.call (.setBatchServer 10 11))
    (withServer, Function.update (fun _ => none) 10 (some 3)) := ⟨rfl, rfl⟩
  have hfresh : Fresh leaderAndChild := World.fresh_small _ _
  refine ⟨by decide, _, Function.update_self _ _ _, survivesRestart_of_reachable hfresh
    (.head ⟨timely_addClient (by decide), by exact trivial⟩ hadd
      (.head ⟨?_, by exact trivial⟩ hserver (.refl _)))⟩
  intro pi hpi
  have hall : ∀ x ∈ leaderAndChild.procs.entries, x.2.createTime < leaderAndChild.now := by decide
  exact hall ⟨11, pi⟩ (AList.mem_lookup_iff.mp hpi)

/-- A reference count that becomes negative makes the file invalid. -/
theorem negative_count_dropped : ¬ ∀ w₀ x, Fresh w₀ →
    tableTimes.ReachableIf (fun x a => Timely x.1 a) (w₀, fun _ => none) x →
    SurvivesRestart x.1 x.2 := by
  intro hall
  have hadd : tableTimes.step (leaderAndChild, fun _ => none) (.call (.addClient 10 [] [] 1))
    (final (TableCall.addClient 10 [] [] 1).run leaderAndChild, fun _ => none) := ⟨rfl, rfl⟩
  have hdecrement : ∀ w : World, tableTimes.step (w, fun _ => none)
      (.call (.decrementReferenceCount 10))
      (final (TableCall.decrementReferenceCount 10).run w, fun _ => none) := fun w => ⟨rfl, rfl⟩
  have hrun := hall _ _ (World.fresh_small _ _) (.head (timely_addClient (by decide)) hadd
    (.head (by exact trivial) (hdecrement _) (.head (by exact trivial) (hdecrement _) (.refl _))))
  have hfile : ((final (TableCall.decrementReferenceCount 10).run
      (final (TableCall.decrementReferenceCount 10).run
        (final (TableCall.addClient 10 [] [] 1).run leaderAndChild))).sessionFiles.lookup 10).map
      (fun file => Json.validate activeSessionsSchema file.contents) = some false := by decide
  obtain ⟨file, hlookup, hinvalid⟩ := map_eq_some_iff.mp hfile
  rw [hrun.valid 10 file hlookup] at hinvalid
  cases hinvalid

end Geopm
