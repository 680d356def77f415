import Geopm.Service.Table

/-!
# Profiles and their status files

* `ProfilesTracked` : `_profiles` and the status files say who is being profiled, and a profile can
  always begin;
* `MixesUsers` : the profiles that begin without the status file of their user;
* `profilesTracked_of_reachable` : in every run without them, the profiles are tracked.

The status file is made for the first profile of all and removed with the last one, but its path
names a user.
-/

namespace Geopm

open Prog

/-- What is known about the profiles. -/
structure ProfilesTracked (w : World) : Prop where
  /-- The PIDs under a name are those whose sessions have it. -/
  pids : ∀ name p, (∃ pids, w.profiles.lookup name = some pids ∧ p ∈ pids) ↔
    ∃ s, w.sessions.lookup p = some s ∧ s.profileName = some name
  nonempty : ∀ name, w.profiles.lookup name ≠ some ∅
  /-- A user has a status file while one of its sessions is being profiled. -/
  status : ∀ uid : ℕ, ⟨"status", uid⟩ ∈ w.shmem ↔
    ∃ p s, w.sessions.lookup p = some s ∧ s.profileName ≠ none ∧ s.clientUid = uid
  /-- Nothing is left over that would keep a profile from beginning. -/
  starts : ∀ p s name, w.sessions.lookup p = some s → s.profileName = none → p ∈ w.procs →
    ∃ w', ActiveSessions.startProfile p name w = .ok () w'

/-- The action begins a profile without making the status file of its user, which does not exist:
sessions of other users are being profiled, or the process has changed its user. -/
def MixesUsers (w : World) : TableAction → Prop
  | .call (.startProfile p _) => ∃ s pi, w.sessions.lookup p = some s ∧ s.profileName = none ∧
      w.procs.lookup p = some pi ∧
      ((∃ q t, w.sessions.lookup q = some t ∧ t.profileName ≠ none ∧ t.clientUid ≠ s.clientUid) ∨
        ((∀ q t, w.sessions.lookup q = some t → t.profileName = none) ∧ pi.uid ≠ s.clientUid))
  | _ => False

/-- The sessions that are being profiled belong to one user, whose status file exists. -/
structure OneUser (w : World) : Prop where
  status : ∀ uid : ℕ, ⟨"status", uid⟩ ∈ w.shmem ↔ ∃ p name, w.profiling p = some (name, uid)
  user : ∀ p q name name' uid uid', w.profiling p = some (name, uid) →
    w.profiling q = some (name', uid') → uid = uid'

section Steps

variable {w w' : World} {r : TableCall}

theorem profiling_ne_none_iff {p : Pid} : w.profiling p ≠ none ↔
    ∃ s, w.sessions.lookup p = some s ∧ s.profileName ≠ none := by
  rw [Option.ne_none_iff_exists']
  constructor
  · rintro ⟨⟨name, uid⟩, h⟩
    obtain ⟨s, hs, hn, -⟩ := World.profiling_iff.mp h
    exact ⟨s, hs, by simp [hn]⟩
  · rintro ⟨s, hs, hn⟩
    obtain ⟨name, hname⟩ := Option.ne_none_iff_exists'.mp hn
    exact ⟨(name, s.clientUid), World.profiling_iff.mpr ⟨s, hs, hname, rfl⟩⟩

/-- A profile that begins finds the status file of its user, or makes it. -/
theorem OneUser.started {p : Pid} {s : Session} {pi : Proc} {name : String} (hidx : Indexed w)
    (hw : OneUser w) (hmix : ¬ MixesUsers w (.call (.startProfile p name)))
    (hs : w.sessions.lookup p = some s) (hn : s.profileName = none)
    (hpi : w.procs.lookup p = some pi)
    (hprofiling : ∀ q, w'.profiling q = if q = p then some (name, s.clientUid) else w.profiling q)
    (hshmem : w'.shmem = insert (shmemPathProf "record-log" p pi.uid)
      (w.beginProfile p s pi.uid name).shmem) : OneUser w' := by
  have hp : w.profiling p = none := by simp [World.profiling, hs, hn]
  -- the sessions that are already being profiled belong to the same user
  have hsame : ∀ q name' uid, w.profiling q = some (name', uid) → uid = s.clientUid := by
    intro q name' uid hq
    obtain ⟨t, ht, htn, rfl⟩ := World.profiling_iff.mp hq
    by_contra hne
    exact hmix ⟨s, pi, hs, hn, hpi, .inl ⟨q, t, ht, by simp [htn], hne⟩⟩
  have hall : ∀ q name' uid, w'.profiling q = some (name', uid) → uid = s.clientUid := by
    intro q name' uid hq
    rw [hprofiling] at hq
    split_ifs at hq with hqp
    · cases hq
      rfl
    · exact hsame q name' uid hq
  refine ⟨fun uid => ?_, fun q q' name' name'' uid uid' hq hq' =>
    (hall q name' uid hq).trans (hall q' name'' uid' hq').symm⟩
  have hexists : (∃ q name', w'.profiling q = some (name', uid)) ↔ uid = s.clientUid := by
    constructor
    · rintro ⟨q, name', hq⟩
      exact hall q name' uid hq
    · rintro rfl
      exact ⟨p, name, by rw [hprofiling, if_pos rfl]⟩
  rw [hexists, hshmem, shmemPathProf_recordLog, World.beginProfile_shmem]
  by_cases hkeys : w.profiles.keys = []
  · -- nobody is being profiled: the status file is made now
    have hnone := hidx.keys.mp hkeys
    have huid : pi.uid = s.clientUid := by
      by_contra hne
      refine hmix ⟨s, pi, hs, hn, hpi, .inr ⟨fun q t ht => ?_, hne⟩⟩
      by_contra htn
      exact profiling_ne_none_iff.mpr ⟨t, ht, htn⟩ (hnone q)
    have hfree : ⟨"status", (uid : ℤ)⟩ ∉ w.shmem := by
      rw [hw.status]
      rintro ⟨q, name', hq⟩
      rw [hnone q] at hq
      cases hq
    simp [hkeys, hfree, huid]
  · -- somebody is being profiled: the status file is there
    obtain ⟨q, hq⟩ : ∃ q, w.profiling q ≠ none := by
      by_contra hnone
      push Not at hnone
      exact hkeys (hidx.keys.mpr hnone)
    obtain ⟨⟨name', uid'⟩, hq⟩ := Option.ne_none_iff_exists'.mp hq
    have huid' := hsame q name' uid' hq
    subst huid'
    simp only [hkeys, if_false, Finset.mem_insert, ProfPath.mk.injEq, String.reduceEq, false_and,
      false_or]
    rw [hw.status]
    constructor
    · rintro ⟨q', name'', hq'⟩
      exact hsame q' name'' uid hq'
    · rintro rfl
      exact ⟨q, name', hq⟩

theorem OneUser.stopped {p : Pid} {name : String} {uid : ℕ} (hw : OneUser w) (hidx' : Indexed w')
    (hold : w.profiling p = some (name, uid))
    (hprofiling : ∀ q, w'.profiling q = if q = p then none else w.profiling q)
    (hprofiles : w'.profiles = w.profilesWithout name p)
    (hshmem : w'.shmem = w.shmemWithout (w.profilesWithout name p) p uid) : OneUser w' := by
  have hprofiling' : ∀ q key, w'.profiling q = some key → w.profiling q = some key := by
    intro q key hq
    rw [hprofiling] at hq
    split_ifs at hq
    exact hq
  refine ⟨fun uid' => ?_, fun q q' name' name'' u u' hq hq' =>
    hw.user q q' name' name'' u u' (hprofiling' q _ hq) (hprofiling' q' _ hq')⟩
  rw [hshmem, mem_shmemWithout, ← hprofiles, hidx'.keys, hw.status]
  constructor
  · rintro ⟨⟨q, name', hq⟩, -, hlast⟩
    have huid : uid' = uid := hw.user q p name' name uid' uid hq hold
    subst huid
    -- somebody else is still being profiled
    obtain ⟨q', hq'⟩ : ∃ q, w'.profiling q ≠ none := by
      by_contra hnone
      push Not at hnone
      exact hlast hnone rfl
    obtain ⟨⟨name'', uid''⟩, hq'⟩ := Option.ne_none_iff_exists'.mp hq'
    have huid := hw.user q' p name'' name uid'' uid' (hprofiling' q' _ hq') hold
    exact ⟨q', name'', huid ▸ hq'⟩
  · rintro ⟨q, name', hq⟩
    refine ⟨⟨q, name', hprofiling' q _ hq⟩, by simp, fun hnone => ?_⟩
    rw [hnone q] at hq
    cases hq

theorem OneUser.reprofiled (hidx : Indexed w) (hw : OneUser w) (hmix : ¬ MixesUsers w (.call r))
    (h : Reprofiled w w' r) : OneUser w' := by
  have hidx' := hidx.reprofiled h
  cases h with
  | same _ hprofiling hprofiles hshmem =>
    exact ⟨by rw [hprofiling, hshmem]; exact hw.status, by rw [hprofiling]; exact hw.user⟩
  | started p s pi name hs hn hpi hprofiling hprofiles hshmem =>
    exact hw.started hidx hmix hs hn hpi hprofiling hshmem
  | stopped _ p name uid hold hprofiling hprofiles hshmem =>
    exact hw.stopped hidx' hold hprofiling hprofiles hshmem

theorem OneUser.around (hw : OneUser w) (h : Around w w') : OneUser w' := by
  obtain ⟨_, _, _, _, _, rfl⟩ := h.rest
  exact ⟨hw.status, hw.user⟩

theorem Fresh.oneUser (h : Fresh w) : OneUser w where
  status uid := by simp [h.shmem, World.profiling, h.sessions]
  user p q name name' uid uid' hp := by
    rw [World.profiling, h.sessions] at hp
    cases hp

theorem OneUser.tracked (hw : OneUser w) (hidx : Indexed w) : ProfilesTracked w where
  pids name p := by
    rw [hidx.profiled]
    simp only [World.profiling_iff]
    exact ⟨fun ⟨_, s, hs, hn, _⟩ => ⟨s, hs, hn⟩, fun ⟨s, hs, hn⟩ => ⟨_, s, hs, hn, rfl⟩⟩
  nonempty := hidx.nonempty
  status uid := by
    rw [hw.status]
    simp only [World.profiling_iff]
    constructor
    · rintro ⟨p, name, s, hs, hn, hu⟩
      exact ⟨p, s, hs, by simp [hn], hu⟩
    · rintro ⟨p, s, hs, hn, hu⟩
      obtain ⟨name, hname⟩ := Option.ne_none_iff_exists'.mp hn
      exact ⟨p, name, s, hs, hname, hu⟩
  starts p s name hs hn hp := by
    obtain ⟨pi, hpi⟩ := (Dict.mem_iff _ _).mp hp
    have hok : wp (ActiveSessions.startProfile p name) (fun _ _ => True) (fun _ _ => False) w := by
      refine ActiveSessions.wp_startProfile hs hn hpi (fun hkeys hstatus _ => ?_)
        (fun hlog _ => hidx.recordLog_free hs hn _ _ hlog) fun _ _ => trivial
      rw [shmemPathProf_status, hw.status] at hstatus
      obtain ⟨q, name', hq⟩ := hstatus
      rw [hidx.keys.mp hkeys q] at hq
      cases hq
    unfold wp at hok
    cases hrun : ActiveSessions.startProfile p name w with
    | ok _ w' => exact ⟨w', rfl⟩
    | error e w' =>
      rw [hrun] at hok
      exact hok.elim

end Steps

/-- In every run of one service process in which no profile begins without the status file of its
user, the profiles are tracked in every state reached. -/
theorem profilesTracked_of_reachable {w₀ w : World} (hw₀ : Fresh w₀)
    (h : table.ReachableIf (fun w a => a ≠ .restart ∧ ¬ MixesUsers w a) w₀ w) :
    ProfilesTracked w := by
  have hinv : Indexed w ∧ OneUser w := by
    refine h.invariant (I := fun w => Indexed w ∧ OneUser w) ⟨hw₀.indexed, hw₀.oneUser⟩
      fun w a w' hw ha hst => ?_
    obtain ⟨hidx, hone⟩ := hw
    cases a with
    | call r =>
      have hre := (did_of_step hidx.profilesOk hst).reprofiled hidx
      exact ⟨hidx.reprofiled hre, hone.reprofiled hidx ha.2 hre⟩
    | restart => exact absurd rfl ha.1
    | around a =>
      have haround := around_of_step hst
      exact ⟨hidx.around haround, hone.around haround⟩
  exact hinv.2.tracked hinv.1

/-! ### Two users -/

/-- Processes of two users. -/
def twoUsers : World :=
  .small (((∅ : Dict Pid Proc).insert 10 ⟨1, 1, 3, 10, false⟩).insert 20 ⟨2, 2, 3, 20, false⟩) 5

/-- A client has a session, and is being profiled. -/
def profiledAlone : World :=
  final (TableCall.startProfile 10 "a").run (final (TableCall.addClient 10 [] [] 1).run twoUsers)

theorem profilesTracked_alone : profiledAlone.profiles.keys = ["a"] ∧
    ProfilesTracked profiledAlone := by
  have hadd : table.step twoUsers (.call (.addClient 10 [] [] 1))
    (final (TableCall.addClient 10 [] [] 1).run twoUsers) := rfl
  have hstart : table.step _ (.call (.startProfile 10 "a")) profiledAlone := rfl
  have hfresh : Fresh twoUsers := World.fresh_small _ _
  refine ⟨by decide, profilesTracked_of_reachable hfresh
    (.head ⟨by simp, by exact fun h => h⟩ hadd (.head ⟨by simp, ?_⟩ hstart (.refl _)))⟩
  have hnone : ∀ x ∈ (final (TableCall.addClient 10 [] [] 1).run twoUsers).sessions.entries,
      x.2.profileName = none ∧ x.2.clientUid = 1 := by decide
  have hlookup : ∀ q t, (final (TableCall.addClient 10 [] [] 1).run twoUsers).sessions.lookup q =
      some t → t.profileName = none ∧ t.clientUid = 1 :=
    fun q t ht => hnone ⟨q, t⟩ (AList.mem_lookup_iff.mp ht)
  rintro ⟨s, pi, hs, -, hpi, ⟨q, t, ht, htn, -⟩ | ⟨-, hne⟩⟩
  · exact htn (hlookup q t ht).1
  · refine hne ?_
    rw [(hlookup 10 s hs).2]
    cases hpi
    rfl

/-- The first profile makes the status file of one user, and the last one removes that of another
user: the file that is left over keeps the first user from being profiled again. -/
theorem status_left_over : ¬ ∀ w₀ w, Fresh w₀ →
    table.ReachableIf (fun _ a => a ≠ .restart) w₀ w → ProfilesTracked w := by
  intro hall
  have hrun : (Lts.run World.tableNext twoUsers
      [.call (.addClient 10 [] [] 1), .call (.addClient 20 [] [] 2),
       .call (.startProfile 10 "a"), .call (.startProfile 20 "b"),
       .call (.stopProfile 10 [] true), .call (.stopProfile 20 [] true)]).map
      (fun w => ((w.sessions.lookup 10).map Session.profileName, decide ((10 : Pid) ∈ w.procs),
        Prog.returns (ActiveSessions.startProfile 10 "a") w)) = some (some none, true, false) := by
    decide
  obtain ⟨w, hw, heq⟩ := Option.map_eq_some_iff.mp hrun
  simp only [Prod.mk.injEq, Option.map_eq_some_iff, decide_eq_true_eq] at heq
  obtain ⟨⟨s, hs, hn⟩, hp, hfails⟩ := heq
  have htracked := hall twoUsers w (World.fresh_small _ _) (Lts.reachableIf_of_run hw ?_)
  swap
  · rintro _ a ha rfl
    simp at ha
  obtain ⟨w', hstart⟩ := htracked.starts 10 s "a" hs hn hp
  rw [Prog.returns, hstart] at hfails
  cases hfails

end Geopm
