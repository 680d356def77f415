import Geopm.Service.ServiceRules

/-!
# Every method is a sequence of effects

`Call.effects w r` says which effects a call `r` may have when it is made in the state `w`.
`within_run` is the refinement: from a sane state with no lock context open, a call is a sequence
of these effects, and leaves no lock context open, whether it returns or raises.
-/

namespace Geopm

open Prog
open ActiveSessions
open Option hiding get
open WriteLock

/-! ### The effects of a call -/

namespace World

/-- The session leader to which the write lock of `c` is tied, if there is one. -/
def leaderOf (w : World) (c : Pid) : Option Pid :=
  match w.procs.lookup c with
  | some pi => if pi.sid ≠ c ∧ pi.sid ∈ w.procs then some pi.sid else none
  | none => none

/-- The PID to which the write lock of `c` is tied. -/
def writerOf (w : World) (c : Pid) : Pid := (w.leaderOf c).getD c

/-- The user name of the effective user of a process. -/
def userOf (w : World) (p : Pid) : Option String :=
  (w.procs.lookup p).bind fun pi => w.users.pwName pi.uid

/-- `request` may close the session of `client`. -/
def mayClose (w : World) (client request : Pid) : Prop :=
  client = request ∨ ∃ pi, w.procs.lookup request = some pi ∧ pi.capSysAdmin = true

/-- The session of `c` allows the control. -/
def allowsControl (w : World) (c : Pid) (name : String) : Prop :=
  ∃ s, w.sessions.lookup c = some s ∧ name ∈ s.controls

/-- The session of `c` allows the batch configuration. -/
def allowsBatch (w : World) (c : Pid) (signals controls : List Request) : Prop :=
  ∃ s, w.sessions.lookup c = some s ∧ Granted signals s.signals ∧ Granted controls s.controls

end World

/-- What `open_session` may do, outside of every lock context. -/
def OpenEffect (w : World) (user : String) (p : Pid) : Effect → Prop
  | .discard q => q = p
  | .close q _ => q = p ∧ w.stale p = true
  | .openSession q u _ => q = p ∧ u = user ∧ w.active p = false
  | .count q _ _ => q = p ∧ w.active p = true
  | _ => False

/-- What `_write_mode` may do: the session of the leader is opened inside a lock context. -/
def WriteEffect (w : World) (c : Pid) : Effect → Prop
  | .discard q => w.leaderOf c = some q
  | .drop q lock => w.leaderOf c = some q ∧ w.stale q = true ∧ w.userOf q ≠ none ∧
      w.controlLock = none ∧ lock = none
  | .openSession q u _ => w.leaderOf c = some q ∧ w.userOf q = some u ∧ q ∉ w.sessions
  | .count q _ _ => w.leaderOf c = some q
  | .setAside _ => True
  | .take q => q = w.writerOf c
  | _ => False

/-- What closing an active session may do. -/
def CloseEffect (w : World) (p : Pid) : Effect → Prop
  | .count q _ _ => q = p
  | .close q _ => q = p ∧ ∃ s, w.sessions.lookup p = some s ∧
      (s.referenceCount = 0 ∨ s.referenceCount = 1)
  | _ => False

/-- What a method does for a client: an inactive one is closed, for an active one the effects are
those in `A`. -/
def OnClient (w : World) (p : Pid) (A : Effect → Prop) (e : Effect) : Prop :=
  (w.active p = false ∧ (e = .discard p ∨ ∃ dir, e = .close p dir)) ∨ (w.active p = true ∧ A e)

/-- What starting a batch server may do. -/
def StartEffect (w : World) (c : Pid) (signals controls : List Request) : Effect → Prop
  | .startServer c' _ v proc sig ctl => c' = c ∧ sig = signals ∧ ctl = controls ∧
      w.batchOf c = none ∧ w.outcomes.popen = some (v, proc)
  | .startBroken c' _ v proc sig ctl => c' = c ∧ sig = signals ∧ ctl = controls ∧
      w.batchOf c = none ∧ w.outcomes.popen = some (v, proc) ∧ w.outcomes.batchKey = none
  | _ => False

/-- What stopping the batch server `v` may do. -/
def StopEffect (w : World) (c v : Pid) : Effect → Prop
  | .stopServer c' _ v' => c' = c ∧ v' = v
  | .forgetServer c' _ v' => c' = c ∧ v' ≠ v ∧ w.batchOf c = some v'
  | _ => False

/-- What `ActiveSessions.start_profile` may do. -/
def ProfileEffect (p : Pid) (name : String) : Effect → Prop
  | .beginProfile q _ _ name' => q = p ∧ name' = name
  | .recordProfile q _ _ => q = p
  | _ => False

/-- The effects that a call may have. -/
def Call.effects (w : World) : Call → Effect → Prop
  | .setGroupAccess .., e => ∃ config, e = .setConfig config
  | .setGroupAccessSignals .., e => ∃ config, e = .setConfig config
  | .setGroupAccessControls .., e => ∃ config, e = .setConfig config
  | .openSession user p, e => OpenEffect w user p e
  | .closeSession p request, e => w.mayClose p request ∧ OnClient w p (CloseEffect w p) e
  | .closeSessionAdmin p request, e => w.mayClose p request ∧ ∃ dir, e = .close p dir
  | .closeAllSessions, e => ∃ p dir, e = .close p dir
  | .startBatch c signals controls, e => OnClient w c (fun e => w.allowsBatch c signals controls ∧
      ((controls ≠ [] ∧ WriteEffect w c e) ∨ StartEffect w c signals controls e)) e
  | .stopBatch c v, e => OnClient w c (StopEffect w c v) e
  | .readSignal c name _ _, e => OnClient w c (fun e => ∃ s, e = .access c s (.readSignal name)) e
  | .writeControl c name _ _ _, e => OnClient w c (fun e => w.allowsControl c name ∧
      (WriteEffect w c e ∨ (∃ s, e = .access c s (.writeControl name)) ∨
        ∃ st, e = .setSettings st)) e
  | .restoreControl c, e => OnClient w c (fun e => WriteEffect w c e ∨ ∃ st, e = .setSettings st) e
  | .startProfile user p name, e => OpenEffect w user p e ∨ ProfileEffect p name e
  | .stopProfile p _, e => OnClient w p (fun e => (∃ s name, e = .endProfile p s name) ∨
      CloseEffect w p e) e
  | .getProfilePids arg _, e =>
      ∃ p, arg.toInt? = some p ∧ w.profilerLock = none ∧ e = .lockProfiler p
  | .popProfileRegionNames arg _, e =>
      (∃ p, arg = .pid p ∧ w.profilerLock = some p) ∧ e = .unlockProfiler
  | .checkClient p, e => p ∈ w.sessions ∧ p ∉ w.procs ∧ ∃ dir, e = .close p dir
  | .closeInactiveClients, e => (∃ p, e = .discard p) ∨ ∃ p dir, e = .close p dir
  | _, _ => False

/-! ### Checking a client -/

namespace PlatformService

variable {A : Effect → Prop} {w₀ w : World} {b : Bool} {p : Pid} {s : Session}
  {Q : Unit → World → Prop} {E : PyErr → World → Prop}

/-- The method has no other effects than those in `A`, whether it returns or raises. -/
def Limited (A : Effect → Prop) (w₀ : World) {α : Type} (method : Py α) (w : World) : Prop :=
  wp method (fun _ => Within A w₀ false) (fun _ => Within A w₀ false) w

theorem active_cases (w : World) (p : Pid) :
    w.active p = true ∨ (w.active p = false ∧ p ∉ w.sessions ∧ w.stale p = false) ∨
      (w.active p = false ∧ p ∈ w.sessions ∧ w.stale p = true) := by
  by_cases hp : p ∈ w.sessions <;> cases h : w.active p <;> simp [World.stale, hp, h]

theorem active_of_lookup {w' : World} (h : w.active p = true)
    (hs : w'.sessions.lookup p = w.sessions.lookup p)
    (hp : w'.procs.lookup p = w.procs.lookup p) : w'.active p = true := by
  unfold World.active at *
  rwa [hs, hp]

/-- Renaming the file of a client that is not tracked. -/
theorem Within.discard (h : Within A w₀ b w) (hA : A (.discard p)) (hp : p ∉ w.sessions)
    {j : Journal} (hlog : w.journal.Logs j []) :
    Within A w₀ b ((w.quiet j).discardFile p) :=
  h.step (e := .discard p) hA hp hlog

theorem within_closeSessionCompletely (h : Within A w₀ false w) (hA : ∀ dir, A (.close p dir))
    (hQ : ∀ w', Within A w₀ false w' → p ∉ w'.sessions → Q () w') :
    wp (closeSessionCompletely p) Q E w := by
  refine wp_closeSessionCompletely h.sane h.isFileActive fun j dir hlog => hQ _ ?_ ?_
  · exact h.step (hA dir) trivial hlog
  · simp [AList.mem_erase]

theorem within_isClientActive {Q : Bool → World → Prop}
    (h : Within A w₀ false w) (hdiscard : A (.discard p))
    (hclose : w.stale p = true → ∀ dir, A (.close p dir)) (hQ : w.active p = true → Q true w)
    (hQ' : ∀ w', w.active p = false → Within A w₀ false w' → p ∉ w'.sessions → Q false w') :
    wp (isClientActive p) Q E w := by
  rw [isClientActive, wp_tryCatch]
  rcases active_cases w p with hact | ⟨hact, hp, -⟩ | ⟨hact, hp, hstale⟩
  · exact (wp_isClientActive_of_active hact).mpr (hQ hact)
  · refine wp_isClientActive_of_notMem hp fun j hlog => ?_
    exact hQ' _ hact (Within.discard h hdiscard hp hlog) hp
  · -- both exceptions are answered by closing the session
    have hclosed : ∀ msg, wp (do warn msg; closeSessionCompletely p; return false) Q E w := by
      intro msg
      rw [wp_bind, wp_warn, wp_bind]
      refine within_closeSessionCompletely (h.quiet (.then_note (.refl _) _)) (hclose hstale) ?_
      exact fun w' hw' hp' => hQ' w' hact hw' hp'
    exact wp_isClientActive_of_stale hstale (fun msg => hclosed _) (hclosed _)

variable {name : String}

theorem within_checkClientActive {Q : Bool → World → Prop} (h : Within A w₀ false w)
    (hA : w.active p = false → A (.discard p) ∧ ∀ dir, A (.close p dir))
    (hQ : w.active p = true → Q true w)
    (hQ' : ∀ w', w.active p = false → Within A w₀ false w' → Q false w') :
    wp (checkClientActive p name) Q E w := by
  cases hact : w.active p with
  | true =>
    rw [checkClientActive, wp_bind, isClientActive, wp_tryCatch]
    refine (wp_isClientActive_of_active hact).mpr ?_
    exact hQ hact
  | false =>
    obtain ⟨hdiscard, hclose⟩ := hA hact
    rw [checkClientActive, wp_bind]
    refine within_isClientActive h hdiscard (fun _ => hclose) (fun h' => by simp [hact] at h') ?_
    intro w' _ hw' _
    rw [wp_bind, if_neg (by simp), wp_bind, wp_warn]
    refine within_closeSessionCompletely (hw'.quiet (.then_note (.refl _) _)) hclose ?_
    exact fun w'' hw'' _ => hQ' w'' hact hw''

theorem limited_onClient {α : Type} {B : Effect → Prop} {method : Py α} {a : α}
    (h : Within A w₀ false w) (hA : ∀ e, OnClient w p B e → A e)
    (hmethod : ∀ s pi, w.sessions.lookup p = some s → w.procs.lookup p = some pi →
      World.sameProcess s pi = true → w.active p = true →
        wp method (fun _ => Within A w₀ false) (fun _ => Within A w₀ false) w) :
    Limited A w₀ (do if ← checkClientActive p name then method else return a) w := by
  rw [Limited, wp_bind]
  refine within_checkClientActive h (fun hact => ⟨hA _ (.inl ⟨hact, .inl rfl⟩),
    fun dir => hA _ (.inl ⟨hact, .inr ⟨dir, rfl⟩⟩)⟩) (fun hact => ?_) fun w' _ hw' => ?_
  · obtain ⟨s, pi, hs, hpi, hsame⟩ := active_iff.mp hact
    rw [if_pos rfl]
    exact hmethod s pi hs hpi hsame hact
  · rw [if_neg (by simp)]
    exact hw'

/-! ### Opening a session -/

/-- The part of the state that opening a session for `p` inside a lock context leaves alone. -/
structure Beside (p : Pid) (w w' : World) : Prop where
  sessions : ∀ q, q ≠ p → w'.sessions.lookup q = w.sessions.lookup q
  procs : w'.procs = w.procs
  controlLock : w'.controlLock = w.controlLock
  outcomes : w'.outcomes = w.outcomes
  now : w'.now = w.now

/-- After `open_session` has returned: the session is open and active, unless there is no such
process. -/
def Opened (w : World) (p : Pid) : Prop :=
  w.active p = true ∨ (p ∉ w.sessions ∧ p ∉ w.procs)

theorem opened_record {pi : Proc} (hpi : w.procs.lookup p = some pi) {signals controls : List String}
    {watchId : ℤ} {j : Journal} :
    Opened ((w.record p (newSession p pi signals controls watchId)).quiet j) p := by
  refine .inl (active_iff.mpr ⟨_, pi, AList.lookup_insert _, hpi, ?_⟩)
  exact sameProcess_iff.mpr ⟨rfl, rfl, rfl⟩

/-- The reference count of an active session grows. -/
theorem within_increment (h : Within A w₀ b w) (hact : w.active p = true)
    (hA : ∀ s n, A (.count p s n))
    (hQ : ∀ w', Within A w₀ b w' → Opened w' p → Beside p w w' → Q () w') :
    wp (incrementReferenceCount p) Q E w := by
  obtain ⟨s, pi, hs, hpi, hsame⟩ := active_iff.mp hact
  rw [incrementReferenceCount, wp_setMember hs]
  refine hQ _ (h.step' (e := .count p s (s.referenceCount + 1)) (hA _ _) ⟨hs, hact⟩ rfl)
    (.inl (active_iff.mpr ⟨_, pi, AList.lookup_insert _, hpi, hsame⟩)) ?_
  exact ⟨fun q hq => AList.lookup_insert_ne hq, rfl, rfl, rfl, rfl⟩

theorem within_newSession {user : String}
    (h : Within A w₀ b w) (hp : p ∉ w.sessions) (hA : ∀ s, A (.openSession p user s))
    (hQ : ∀ w', Within A w₀ b w' → Opened w' p → Beside p w w' → Q () w') (hE : ∀ e, E e w) :
    wp (do
      let (signals, controls) ← getUserAccess user p
      let watchId ← watchClient p
      addClient p signals controls watchId) Q E w := by
  rw [wp_bind]
  refine (AccessLists.reads_getUserAccess user).wp ⟨rfl, rfl, rfl, rfl⟩ (fun a ha => ?_)
    fun e _ => hE e
  obtain ⟨signals, controls⟩ := a
  change wp (addClient p signals controls (w.journal.lastWatch + 1)) Q E
    (w.quiet { w.journal with
      lastWatch := w.journal.lastWatch + 1
      watches := w.journal.watches.insert (w.journal.lastWatch + 1) p })
  refine (wp_addClient (by exact hp)).mpr ⟨fun pi hpi => ?_, fun hpi => ?_⟩
  · refine hQ _ (h.step (e := .openSession p user _) (hA _) ⟨hp, pi, signals, controls, _, hpi, rfl,
      ha⟩ (.of_stderr rfl)) (opened_record hpi) ?_
    exact ⟨fun q hq => AList.lookup_insert_ne hq, rfl, rfl, rfl, rfl⟩
  · refine hQ _ (h.quiet (.then_note (.of_stderr rfl) _)) (.inr ⟨hp, ?_⟩) ?_
    · exact (Dict.notMem_iff _ _).mpr hpi
    · exact ⟨fun _ _ => rfl, rfl, rfl, rfl, rfl⟩

/-- `open_session`, outside of every lock context. -/
theorem within_openSession {user : String}
    (h : Within A w₀ false w) (hA : ∀ e, OpenEffect w user p e → A e)
    (hQ : ∀ w', Within A w₀ false w' → Opened w' p → Q () w')
    (hE : ∀ e w', Within A w₀ false w' → E e w') : wp (openSession user p) Q E w := by
  rw [openSession, wp_bind]
  refine within_isClientActive h (hA _ rfl) (fun hstale dir => hA _ ⟨rfl, hstale⟩)
    (fun hact => ?_) fun w' hact hw' hp => ?_
  · rw [if_pos rfl]
    exact within_increment h hact (fun _ _ => hA _ ⟨rfl, hact⟩) fun w' hw' ho _ => hQ w' hw' ho
  · rw [if_neg (by simp)]
    exact within_newSession hw' hp (fun _ => hA _ ⟨rfl, rfl, hact⟩)
      (fun w'' hw'' ho _ => hQ w'' hw'' ho) fun e => hE e w' hw'

/-- `open_session`, inside a lock context: a stale session makes the method raise. -/
theorem within_openSession_nested
    {user : String} (h : Within A w₀ true w) (hdiscard : A (.discard p))
    (hdrop : w.stale p = true → A (.drop p w.controlLock))
    (hopen : p ∉ w.sessions → ∀ s, A (.openSession p user s)) (hcount : ∀ s n, A (.count p s n))
    (hQ : ∀ w', Within A w₀ true w' → Opened w' p → Beside p w w' → Q () w')
    (hE : ∀ e w', Within A w₀ true w' → E e w') : wp (openSession user p) Q E w := by
  rw [openSession, wp_bind, isClientActive, wp_tryCatch]
  rcases active_cases w p with hact | ⟨hact, hp, -⟩ | ⟨hact, hp, hstale⟩
  · refine (wp_isClientActive_of_active hact).mpr ?_
    exact within_increment h hact hcount hQ
  · refine wp_isClientActive_of_notMem hp fun j hlog => ?_
    rw [if_neg (by simp)]
    refine within_newSession (Within.discard h hdiscard hp hlog) hp (hopen hp) ?_ ?_
    · exact fun w' hw' ho hb => hQ w' hw' ho ⟨hb.1, hb.2, hb.3, hb.4, hb.5⟩
    · exact fun e => hE e _ (Within.discard h hdiscard hp hlog)
  · have hdropped : ∀ msg, wp (do warn msg; closeSessionCompletely p; return false)
        (fun a => wp (if a = true then incrementReferenceCount p else do
          let (signals, controls) ← getUserAccess user p
          let watchId ← watchClient p
          addClient p signals controls watchId) Q E) E w := by
      intro msg
      rw [wp_bind, wp_warn, wp_bind]
      have hw := h.quiet (.then_note (.refl w.journal) msg)
      refine wp_closeSessionCompletely_nested hw.sane hw.isFileActive fun j _ hlog => hE _ _ ?_
      exact hw.step (e := .drop p w.controlLock) (hdrop hstale) ⟨hstale, rfl⟩ hlog
    exact wp_isClientActive_of_stale hstale (fun msg => hdropped _) (hdropped _)

/-! ### Write mode -/

theorem leaderOf_eq_some {c q : Pid} : w.leaderOf c = some q ↔
    ∃ pi, w.procs.lookup c = some pi ∧ pi.sid = q ∧ q ≠ c ∧ q ∈ w.procs := by
  unfold World.leaderOf
  cases w.procs.lookup c with
  | none => simp
  | some pi =>
    simp only [Option.some.injEq, exists_eq_left', ite_none_right_eq_some]
    constructor
    · rintro ⟨⟨hne, hmem⟩, rfl⟩
      exact ⟨rfl, hne, hmem⟩
    · rintro ⟨rfl, hne, hmem⟩
      exact ⟨⟨hne, hmem⟩, rfl⟩

variable {c : Pid}

theorem leaderOf_of_writerOf (h : w.writerOf c ≠ c) :
    w.leaderOf c = some (w.writerOf c) := by
  unfold World.writerOf at *
  cases hl : w.leaderOf c with
  | none => rw [hl] at h; exact absurd rfl h
  | some q => rfl

theorem wp_writePid {Q : Pid → World → Prop} {pi : Proc}
    (hpi : w.procs.lookup c = some pi) : wp (writePid c) Q E w ↔ Q (w.writerOf c) w := by
  simp only [writePid, wp_bind, wp_getsid, hpi, Option.some.injEq, forall_eq', reduceCtorEq,
    false_implies, and_true, wp_pidExists, wp_pure, decide_eq_true_eq, World.writerOf,
    World.leaderOf]
  split_ifs <;> rfl

/-- Two states with the same sessions and the same processes. -/
structure SameClients (w w' : World) : Prop where
  sessions : w'.sessions = w.sessions
  procs : w'.procs = w.procs
  outcomes : w'.outcomes = w.outcomes
  now : w'.now = w.now

/-- The settings are saved and the free lock is taken, inside a lock context. -/
theorem within_takeLock {q : Pid}
    (h : Within A w₀ true w) (hlock : w.controlLock = none) (hact : w.active q = true)
    (haside : ∀ dir, A (.setAside dir)) (htake : A (.take q))
    (hQ : ∀ w', Within A w₀ true w' → w'.controlLock = some q → SameClients w w' → Q () w')
    (hE : ∀ e w', Within A w₀ true w' → E e w') :
    wp (do
      renameUnowned
      let _ ← uuid4
      Pio.saveControlDir
      let _ ← WriteLock.tryLock .control (some (.pid q))
      setWritePid (some q)) Q E w := by
  -- when no `SAVE_FILES` is in the way
  have hrest : ∀ w', Within A w₀ true w' → w'.controlLock = none → w'.saveFiles = none →
      SameClients w w' → wp (do
        let _ ← uuid4
        Pio.saveControlDir
        let _ ← WriteLock.tryLock .control (some (.pid q))
        setWritePid (some q)) Q E w' := by
    intro w' hw' hlock' hsave hsame
    have hact' : w'.active q = true :=
      active_of_lookup hact (by rw [hsame.sessions]) (by rw [hsame.procs])
    rw [wp_bind, wp_uuid4, wp_bind, Pio.saveControlDir, wp_bind, wp_get, wp_ite]
    refine ⟨fun _ => hE _ _ (hw'.quiet (.of_stderr rfl)), fun _ => ?_⟩
    rw [wp_set, wp_bind]
    refine (wp_tryLock_some (by exact hlock')).mpr ?_
    refine hQ _ (hw'.step (e := .take q) htake ⟨hlock', hsave, hact'⟩ (.of_stderr rfl)) rfl ?_
    exact ⟨hsame.1, hsame.2, hsame.3, hsame.4⟩
  rw [wp_bind, renameUnowned, wp_bind, wp_get, wp_ite]
  refine ⟨fun hsave => ?_, fun hsave => ?_⟩
  · have hne : w.saveFiles ≠ none := isSome_iff_ne_none.mp hsave
    rw [wp_bind, wp_uuid4, wp_bind, wp_warn]
    refine (wp_renameSaveFiles (by exact hne)).mpr (hrest _ ?_ hlock rfl ⟨rfl, rfl, rfl, rfl⟩)
    exact h.step (e := .setAside _) (haside _) hlock (.then_note (.of_stderr rfl) _)
  · exact hrest w h hlock (not_isSome_iff_eq_none.mp hsave) ⟨rfl, rfl, rfl, rfl⟩

/-- After `_write_mode` has returned: the writer of `c` holds the lock, and the session of `c` is
as it was. -/
structure Written (c : Pid) (w w' : World) : Prop where
  controlLock : w'.controlLock = some (w.writerOf c)
  session : w'.sessions.lookup c = w.sessions.lookup c
  procs : w'.procs = w.procs
  outcomes : w'.outcomes = w.outcomes
  now : w'.now = w.now

/-- `_write_mode` of an active client. -/
theorem within_writeMode
    (h : Within A w₀ false w) (hact : w.active c = true) (hA : ∀ e, WriteEffect w c e → A e)
    (hQ : ∀ w', Within A w₀ false w' → Written c w w' → Q () w')
    (hE : ∀ e w', Within A w₀ false w' → E e w') : wp (writeMode c) Q E w := by
  obtain ⟨s, pi, hs, hpi, hsame⟩ := active_iff.mp hact
  have hinactive : ∀ {w' : World}, Within A w₀ true w' → Within A w₀ false (w'.setActive false) :=
    fun hw' => hw'.setActive false
  rw [writeMode, wp_bind, wp_writePid hpi]
  refine wp_withLock h.isFileActive ?_
  rw [wp_bind, wp_tryLock_none]
  have h₁ : Within A w₀ true (w.setActive true) := h.setActive true
  cases hlock : w.controlLock with
  | some lockPid =>
    simp only [World.lockFile, World.setActive_controlLock, hlock, map_some, wp_ite,
      wp_pure, wp_throw, PidArg.pid.injEq]
    refine ⟨fun hown => ⟨rfl, hQ _ (hinactive h₁) ⟨?_, rfl, rfl, rfl, rfl⟩⟩,
      fun _ => ⟨rfl, hE _ _ (hinactive h₁)⟩⟩
    rw [← hown]
    exact hlock
  | none =>
    simp only [World.lockFile, World.setActive_controlLock, hlock, map_none]
    -- the lock is taken when the session of the leader has been dealt with
    have htake : ∀ w', Within A w₀ true w' → w'.controlLock = none →
        w'.active (w.writerOf c) = true → w'.sessions.lookup c = w.sessions.lookup c →
        w'.procs = w.procs → w'.outcomes = w.outcomes → w'.now = w.now →
        wp (do
          renameUnowned
          let _ ← uuid4
          Pio.saveControlDir
          let _ ← WriteLock.tryLock .control (some (.pid (w.writerOf c)))
          setWritePid (some (w.writerOf c)))
          (fun a w' => w'.isFileActive = true ∧ Q a (w'.setActive false))
          (fun e w' => w'.isFileActive = true ∧ E e (w'.setActive false)) w' := by
      intro w' hw' hlock' hwriter hc hprocs hout hnow
      refine within_takeLock hw' hlock' hwriter (fun _ => hA _ trivial) (hA _ rfl)
        (fun w'' hw'' hl hsame => ⟨hw''.isFileActive, hQ _ (hinactive hw'') ?_⟩)
        fun e w'' hw'' => ⟨hw''.isFileActive, hE _ _ (hinactive hw'')⟩
      exact ⟨hl, by rw [← hc, ← hsame.sessions]; rfl, hsame.procs.trans hprocs,
        hsame.outcomes.trans hout, hsame.now.trans hnow⟩
    rw [wp_bind, wp_ite]
    refine ⟨fun hne => ?_, fun hself => ?_⟩
    · have hleader := leaderOf_of_writerOf hne
      obtain ⟨_, _, _, hq, hmem⟩ := leaderOf_eq_some.mp hleader
      obtain ⟨qi, hqi⟩ := (Dict.mem_iff _ _).mp hmem
      rw [openLeaderSession, wp_bind, wp_statUid]
      refine ⟨fun qi' hqi' => ?_, fun hnone => ?_⟩
      · rw [wp_bind, wp_getpwuid]
        refine ⟨fun name hname => ?_, fun _ => ⟨rfl, hE _ _ (hinactive h₁)⟩⟩
        have huser : w.userOf (w.writerOf c) = some name := by
          change (w.procs.lookup (w.writerOf c)).bind (fun pi => w.users.pwName pi.uid) = some name
          rw [show w.procs.lookup (w.writerOf c) = some qi' from hqi']
          exact hname
        refine within_openSession_nested h₁ (hA _ hleader) ?_ ?_ (fun _ _ => hA _ hleader) ?_ ?_
        · exact fun hstale => hA _ ⟨hleader, hstale, by simp [huser], hlock, hlock⟩
        · exact fun hq s => hA _ ⟨hleader, huser, hq⟩
        · intro w' hw' ho hb
          refine htake w' hw' (hb.controlLock.trans hlock) (ho.resolve_right fun hn => ?_)
            (hb.sessions c (fun h => hq h.symm)) hb.procs hb.outcomes hb.now
          exact hn.2 (hb.procs ▸ hmem)
        · exact fun e w' hw' => ⟨hw'.isFileActive, hE _ _ (hinactive hw')⟩
      · rw [show w.procs.lookup (w.writerOf c) = none from hnone] at hqi
        cases hqi
    · rw [wp_pure]
      refine htake _ h₁ hlock ?_ rfl rfl rfl rfl
      rw [of_not_not hself]
      exact hact

/-! ### Closing a session -/

theorem wp_closing {client request : Pid}
    {body : Py Unit} (h : w.mayClose client request → wp body Q E w) (hE : ∀ e, E e w) :
    wp (closing client request body) Q E w := by
  rw [closing, wp_bind, wp_ite]
  refine ⟨fun heq => ?_, fun _ => wp_hasCapSysAdmin.mpr ⟨fun pi hpi => ?_, fun _ => hE _⟩⟩
  · rw [wp_pure, if_pos rfl]
    exact h (.inl heq)
  · rw [wp_ite]
    exact ⟨fun hcap => h (.inr ⟨pi, hpi, hcap⟩), fun _ => hE _⟩

section

variable (h : Within A w₀ false w)
include h

/-- `close_session` of an active session. -/
theorem limited_closeActive
    (hs : w.sessions.lookup p = some s) (hact : w.active p = true)
    (hcount : ∀ s n, A (.count p s n))
    (hclose : s.referenceCount = 0 ∨ s.referenceCount = 1 → ∀ dir, A (.close p dir)) :
    Limited A w₀ (closeSession p p) w := by
  have hdecrement : Limited A w₀ (decrementReferenceCount p) w := by
    rw [Limited, decrementReferenceCount, wp_setMember hs]
    exact h.step' (e := .count p s (s.referenceCount - 1)) (hcount _ _) ⟨hs, hact⟩ rfl
  rw [Limited, closeSession]
  refine wp_closing (fun _ => ?_) fun _ => h
  rw [wp_bind]
  refine within_checkClientActive h (fun hn => by rw [hact] at hn; cases hn) (fun _ => ?_)
    fun w' hn => by rw [hact] at hn; cases hn
  rw [if_pos rfl, wp_bind, getReferenceCount, wp_getMember hs, wp_ite]
  refine ⟨fun h0 => ?_, fun _ => wp_ite.mpr ⟨fun h1 => ?_, fun _ => hdecrement⟩⟩
  · exact within_closeSessionCompletely h (hclose (.inl h0)) fun _ hw' _ => hw'
  · rw [wp_bind]
    refine wp_mono hdecrement (fun _ w' hw' => ?_) fun _ _ hw' => hw'
    exact within_closeSessionCompletely hw' (hclose (.inr h1)) fun _ hw'' _ => hw''

theorem limited_closeSession {request : Pid}
    (hA : ∀ e, w.mayClose p request ∧ OnClient w p (CloseEffect w p) e → A e) :
    Limited A w₀ (closeSession p request) w := by
  cases hact : w.active p with
  | true =>
    obtain ⟨s, pi, hs, -, -⟩ := active_iff.mp hact
    refine wp_closing (fun hmay => ?_) fun _ => h
    have hclose := limited_closeActive h hs hact (fun s n => hA _ ⟨hmay, .inr ⟨hact, rfl⟩⟩)
      fun hn dir => hA _ ⟨hmay, .inr ⟨hact, rfl, s, hs, hn⟩⟩
    rw [Limited, closeSession, closing, wp_bind, if_pos rfl, wp_pure, if_pos rfl] at hclose
    exact hclose
  | false =>
    rw [Limited, closeSession]
    refine wp_closing (fun hmay => ?_) fun _ => h
    rw [wp_bind]
    refine within_checkClientActive h (fun _ => ⟨hA _ ⟨hmay, .inl ⟨hact, .inl rfl⟩⟩,
      fun dir => hA _ ⟨hmay, .inl ⟨hact, .inr ⟨dir, rfl⟩⟩⟩⟩)
      (fun hn => by rw [hact] at hn; cases hn) fun w' _ hw' => ?_
    rw [if_neg (by simp)]
    exact hw'

theorem limited_closeSessionAdmin {request : Pid}
    (hA : w.mayClose p request → ∀ dir, A (.close p dir)) :
    Limited A w₀ (closeSessionAdmin p request) w :=
  wp_closing (fun hmay => within_closeSessionCompletely h (hA hmay) fun _ hw' _ => hw') fun _ => h

theorem limited_closeAllSessions (hA : ∀ p dir, A (.close p dir)) :
    Limited A w₀ closeAllSessions w := by
  rw [Limited, closeAllSessions, wp_bind, wp_getClients, wp_bind, wp_get, wp_bind]
  refine wp_mono (wp_forM h fun p _ w' hw' => ?_) (fun _ w' hw' => ?_) fun _ _ hw' => hw'
  · rw [wp_tryCatch]
    refine wp_mono (limited_closeSessionAdmin hw' fun _ => hA p) (fun _ _ h' => h')
      fun e w'' hw'' => ?_
    exact hw''.quiet (.then_note (.refl _) _)
  · rw [wp_ite]
    exact ⟨fun _ => hw', fun _ => hw'.quiet (.then_note (.refl _) _)⟩

theorem limited_closeInactiveClients
    (hdiscard : ∀ p, A (.discard p)) (hclose : ∀ p dir, A (.close p dir)) :
    Limited A w₀ closeInactiveClients w := by
  rw [Limited, closeInactiveClients, wp_bind, wp_getClients]
  refine wp_forM h fun p _ w' hw' => ?_
  rw [wp_bind]
  exact within_isClientActive hw' (hdiscard p) (fun _ => hclose p) (fun _ => hw')
    fun w'' _ hw'' _ => hw''

theorem limited_checkClient (hA : p ∈ w.sessions → p ∉ w.procs → ∀ dir, A (.close p dir)) :
    Limited A w₀ (checkClient p) w := by
  rw [Limited, checkClient, wp_bind, wp_getClients, wp_bind, wp_pidExists, wp_ite]
  refine ⟨fun hdead => ?_, fun _ => h⟩
  rw [mem_pySorted, AList.mem_keys.symm, decide_eq_false_iff_not] at hdead
  rw [wp_bind]
  exact within_closeSessionCompletely h (hA hdead.1 hdead.2) fun _ hw' _ => hw'

end

/-! ### Batch servers -/

theorem wp_checkRequested {what : String}
    {config : List Request} {supported : List String} (h : Granted config supported → Q () w)
    (hE : ∀ e, E e w) : wp (checkRequested what config supported) Q E w := by
  rw [checkRequested, wp_ite]
  refine ⟨fun hmissing => h fun r hr => ?_, fun _ => hE _⟩
  by_contra hnot
  have hmem : r.2.2 ∈ (requested config).filter fun name => name ∉ supported :=
    List.mem_filter.mpr ⟨List.mem_dedup.mpr (List.mem_map_of_mem hr), by simpa using hnot⟩
  rw [hmissing] at hmem
  cases hmem

theorem freshPopen_iff {o : Outcomes} {v : Pid} {proc : Proc} (h : w.freshPopen o = true)
    (ho : o.popen = some (v, proc)) : v ∉ w.procs ∧ proc.createTime = w.now := by
  rw [World.freshPopen, ho] at h
  simpa using h

/-- The part of `start_batch` that starts the server. -/
theorem limited_startServer {signals controls : List Request} (h : Within A w₀ false w)
    (hs : w.sessions.lookup c = some s) (hact : w.active c = true)
    (hfresh : w.freshPopen w.outcomes = true) (hsig : Granted signals s.signals)
    (hctl : Granted controls s.controls) (hlock : controls ≠ [] → w.controlLock ≠ none)
    (hA : ∀ e, StartEffect w c signals controls e → A e) :
    Limited A w₀ (do
      match ← getBatchServer c with
      | some v => throw (.runtimeError s!"Client {c} has already started a batch server: {v}")
      | none => do
        let (v, key) ← popenGeopmbatch c signals controls
        setBatchServer c v
        accessedSignals (signals.map fun r => r.2.2)
        accessedControls (controls.map fun r => r.2.2)
        return (v, key)) w := by
  rw [Limited, wp_bind, getBatchServer, wp_getMember hs]
  cases hb : s.batchServer with
  | some v => exact h
  | none =>
    have hbatch : w.batchOf c = none := by rw [World.batchOf, hs, bind_some, hb]
    dsimp only
    rw [wp_bind]
    refine wp_popenGeopmbatch (fun _ => h) (fun v proc hv hkey => ?_) fun v proc key hv _ => ?_
    · obtain ⟨hnew, htime⟩ := freshPopen_iff hfresh hv
      exact h.step' (e := .startBroken c s v proc signals controls) (hA _
        ⟨rfl, rfl, rfl, hbatch, hv, hkey⟩) ⟨hs, hact, hnew, htime, hsig, hctl⟩ rfl
    · obtain ⟨hnew, htime⟩ := freshPopen_iff hfresh hv
      dsimp only
      rw [wp_bind]
      refine (wp_setBatchServer (by exact hs) hb).mpr ?_
      exact h.step (e := .startServer c s v proc signals controls) (hA _
        ⟨rfl, rfl, rfl, hbatch, hv⟩) ⟨hs, hact, hb, hnew, htime, hsig, hctl, hlock⟩ (.of_stderr rfl)

theorem limited_startBatch {signals controls : List Request} (h : Within A w₀ false w)
    (hfresh : w.freshPopen w.outcomes = true)
    (hA : ∀ e, Call.effects w (.startBatch c signals controls) e → A e) :
    Limited A w₀ (startBatch c signals controls) w := by
  refine limited_onClient h hA fun s _ hs _ _ hact => ?_
  rw [wp_bind, getSignals, wp_getMember hs, wp_bind, getControls, wp_getMember hs, wp_bind]
  refine wp_checkRequested (fun hsig => ?_) fun _ => h
  rw [wp_bind]
  refine wp_checkRequested (fun hctl => ?_) fun _ => h
  have hsig' : Granted signals s.signals := fun r hr => mem_pySorted.mp (hsig r hr)
  have hctl' : Granted controls s.controls := fun r hr => mem_pySorted.mp (hctl r hr)
  have hallows : w.allowsBatch c signals controls := ⟨s, hs, hsig', hctl'⟩
  have hstart : ∀ e, StartEffect w c signals controls e → A e :=
    fun e he => hA _ (.inr ⟨hact, hallows, .inr he⟩)
  rw [wp_bind, wp_ite]
  refine ⟨fun hnil => ?_, fun hne => ?_⟩
  · rw [wp_pure]
    exact limited_startServer h hs hact hfresh hsig' hctl' (fun hne => absurd hnil hne) hstart
  · refine within_writeMode h hact (fun e he => hA _ (.inr ⟨hact, hallows, .inl ⟨hne, he⟩⟩))
      (fun w' hw' hwritten => ?_) fun _ _ hw' => hw'
    refine limited_startServer hw' (hwritten.session.trans hs)
      (active_of_lookup hact hwritten.session (by rw [hwritten.procs])) ?_ hsig' hctl'
      (fun _ => by rw [hwritten.controlLock]; simp) fun e he => hstart e ?_
    · rw [World.freshPopen, hwritten.outcomes, hwritten.procs, hwritten.now]
      exact hfresh
    · unfold StartEffect World.batchOf at he ⊢
      rw [hwritten.outcomes, hwritten.session] at he
      exact he

theorem limited_stopBatch {c v : Pid} (h : Within A w₀ false w)
    (hA : ∀ e, Call.effects w (.stopBatch c v) e → A e) : Limited A w₀ (stopBatch c v) w := by
  refine limited_onClient h hA fun s _ hs _ _ hact => ?_
  rw [wp_bind, getBatchServer, wp_getMember hs, wp_bind, wp_ite]
  refine ⟨fun hne => ?_, fun heq => ?_⟩
  · rw [wp_warn]
    cases hb : s.batchServer with
    | none =>
      refine (wp_removeBatchServer_of_none (by exact hs) hb).mpr ?_
      exact h.quiet (.then_note (.refl _) _)
    | some v' =>
      refine wp_removeBatchServer (by exact hs) hb fun j hlog => ?_
      have hv : v' ≠ v := fun h' => hne (by rw [hb, h'])
      have hbatch : w.batchOf c = some v' := by rw [World.batchOf, hs, bind_some, hb]
      exact h.step (e := .forgetServer c s v') (hA _ (.inr ⟨hact, rfl, hv, hbatch⟩)) ⟨hs, hact, hb⟩
        (.trans (.then_note (.refl _) _) hlog)
  · have hb : s.batchServer = some v := of_not_not heq
    have hremove : ∀ j, w.journal.Logs j [] →
        Limited A w₀ (removeBatchServer c) ((w.stopped v).quiet j) := by
      intro j hj
      refine wp_removeBatchServer (by exact hs) hb fun j' hj' => ?_
      exact h.step (e := .stopServer c s v) (hA _ (.inr ⟨hact, rfl, rfl⟩)) ⟨hs, hact, hb⟩
        (hj.trans hj')
    rw [wp_bind]
    refine wp_stopBatchServer fun j r hj _ => ?_
    cases r with
    | none => exact hremove j hj
    | some ex => exact hremove _ (hj.then_note _)

/-! ### Signals and controls -/

theorem limited_readSignal {domain domainIdx : ℤ} (h : Within A w₀ false w)
    (hA : ∀ e, Call.effects w (.readSignal c name domain domainIdx) e → A e) :
    Limited A w₀ (readSignal c name domain domainIdx) w := by
  refine limited_onClient h hA fun s _ hs _ _ hact => ?_
  rw [wp_bind, getSignals, wp_getMember hs, wp_ite]
  refine ⟨fun hname => ?_, fun _ => ?_⟩
  · have hread : Within A w₀ false (w.accessed (.readSignal name)) :=
      h.step' (e := .access c s (.readSignal name)) (hA _ (.inr ⟨hact, s, rfl⟩))
        ⟨hs, hact, mem_pySorted.mp hname⟩ rfl
    rw [wp_bind, Pio.readSignal, wp_bind, wp_modify, wp_bind, wp_get]
    dsimp only
    cases w.outcomes.signal with
    | none => exact hread
    | some value => exact hread.quiet (.of_stderr rfl)
  · rw [wp_bind, wp_warn]
    exact h.quiet (.then_note (.refl _) _)

theorem limited_writeControl {domain domainIdx : ℤ} {setting : ℚ} (h : Within A w₀ false w)
    (hA : ∀ e, Call.effects w (.writeControl c name domain domainIdx setting) e → A e) :
    Limited A w₀ (writeControl c name domain domainIdx setting) w := by
  refine limited_onClient h hA fun s _ hs _ _ hact => ?_
  rw [wp_bind, getControls, wp_getMember hs, wp_ite]
  refine ⟨fun hname => ?_, fun _ => h⟩
  have hallows : w.allowsControl c name := ⟨s, hs, mem_pySorted.mp hname⟩
  rw [wp_bind]
  refine within_writeMode h hact (fun e he => hA _ (.inr ⟨hact, hallows, .inl he⟩))
    (fun w' hw' hwritten => ?_) fun _ _ hw' => hw'
  have hpassed : Within A w₀ false (w'.accessed (.writeControl name)) :=
    hw'.step' (e := .access c s (.writeControl name))
      (hA _ (.inr ⟨hact, hallows, .inr (.inl ⟨s, rfl⟩)⟩)) ⟨hwritten.session.trans hs,
        active_of_lookup hact hwritten.session (by rw [hwritten.procs]), mem_pySorted.mp hname⟩ rfl
  rw [wp_bind, Pio.writeControl, wp_bind, wp_modify, wp_bind, wp_get, wp_ite]
  refine ⟨fun _ => hpassed, fun _ => ?_⟩
  rw [wp_set]
  refine hpassed.step (e := .setSettings _) (hA _ (.inr ⟨hact, hallows, .inr (.inr ⟨_, rfl⟩)⟩)) ?_
    (.of_stderr rfl)
  change w'.controlLock ≠ none
  simp [hwritten.controlLock]

theorem limited_restoreControl (h : Within A w₀ false w)
    (hA : ∀ e, Call.effects w (.restoreControl c) e → A e) :
    Limited A w₀ (restoreControl c) w := by
  refine limited_onClient h hA fun _ _ _ _ _ hact => ?_
  rw [wp_bind]
  refine within_writeMode h hact (fun e he => hA _ (.inr ⟨hact, .inl he⟩))
    (fun w' hw' hwritten => ?_) fun _ _ hw' => hw'
  have hset : ∀ st, Within A w₀ false (w'.withSettings st) := fun st =>
    hw'.step' (e := .setSettings st) (hA _ (.inr ⟨hact, .inr ⟨st, rfl⟩⟩))
      (by simp [Effect.guard, hwritten.controlLock]) rfl
  cases hsave : w'.saveFiles with
  | none =>
    rw [Pio.restoreControlDir, wp_bind, wp_get, hsave]
    exact hw'
  | some saved =>
    exact wp_restoreControlDir (by rw [hsave]; simp) (fun _ => hset _) fun _ _ => hset _

/-! ### Profiles -/

section

variable (h : Within A w₀ false w)
include h

/-- `ActiveSessions.start_profile`, after `open_session`. -/
theorem limited_beginProfile
    (hopened : Opened w p) (hA : ∀ e, ProfileEffect p name e → A e) :
    Limited A w₀ (ActiveSessions.startProfile p name) w := by
  rcases hopened with hact | ⟨hp, -⟩
  · obtain ⟨s, pi, hs, hpi, hsame⟩ := active_iff.mp hact
    cases hn : s.profileName with
    | some other =>
      refine wp_startProfile_of_not (fun s' hs' => ?_) fun _ => h
      rw [hs] at hs'
      cases hs'
      rw [hn]
      simp
    | none =>
      have hbegun : Within A w₀ false (w.beginProfile p s pi.uid name) :=
        h.step' (e := .beginProfile p s pi.uid name) (hA _ ⟨rfl, rfl⟩) ⟨hs, hact, hn⟩ rfl
      refine wp_startProfile hs hn hpi (fun _ _ _ => h) (fun _ _ => hbegun) fun _ _ => ?_
      exact hbegun.step' (e := .recordProfile p { s with profileName := some name } _) (hA _ rfl)
        ⟨AList.lookup_insert _,
          active_iff.mpr ⟨_, pi, AList.lookup_insert _, hpi, hsame⟩⟩ rfl
  · refine wp_startProfile_of_not (fun s hs => ?_) fun _ => h
    exact absurd ((Dict.mem_iff _ _).mpr ⟨s, hs⟩) hp

theorem limited_startProfile {user name : String}
    (hA : ∀ e, Call.effects w (.startProfile user p name) e → A e) :
    Limited A w₀ (startProfile user p name) w := by
  rw [Limited, startProfile, wp_bind]
  refine within_openSession h (fun e he => hA e (.inl he)) (fun w' hw' ho => ?_) fun _ _ hw' => hw'
  exact limited_beginProfile hw' ho fun e he => hA e (.inr he)

theorem limited_stopProfile {regionNames : List String}
    (hA : ∀ e, Call.effects w (.stopProfile p regionNames) e → A e) :
    Limited A w₀ (stopProfile p regionNames) w := by
  refine limited_onClient h hA fun s pi hs hpi hsame hact => ?_
  rw [wp_bind]
  cases hn : s.profileName with
  | none =>
    refine wp_stopProfile_of_not (fun s' hs' => ?_) fun _ => h
    cases hs.symm.trans hs'
    exact hn
  | some name =>
    obtain ⟨pids, hpids, hmem⟩ := h.sane.profiles p s name hs hn
    refine wp_stopProfile hs hn hpids hmem fun j hlog => ?_
    rw [if_pos rfl]
    have hended := h.step (e := .endProfile p s name) (j := j)
      (hA _ (.inr ⟨hact, .inl ⟨s, name, rfl⟩⟩)) ⟨hs, hact, hn⟩ hlog
    refine limited_closeActive (s := { s with profileName := none }) hended
      (AList.lookup_insert _) ?_ (fun _ _ => hA _ (.inr ⟨hact, .inr rfl⟩))
      fun hn dir => hA _ (.inr ⟨hact, .inr ⟨rfl, s, hs, hn⟩⟩)
    exact active_iff.mpr ⟨_, pi, AList.lookup_insert _, hpi, hsame⟩

theorem limited_getProfilePids {arg : PidArg}
    (hA : ∀ q, arg.toInt? = some q → w.profilerLock = none → A (.lockProfiler q)) :
    Limited A w₀ (getProfilePids arg name) w := by
  have h₁ : Within A w₀ true (w.setActive true) := h.setActive true
  rw [Limited, getProfilePids, wp_bind]
  refine wp_withLock h.isFileActive ?_
  rw [wp_bind, wp_tryLock_none]
  cases hlock : w.profilerLock with
  | none =>
    simp only [World.lockFile, World.setActive_profilerLock, hlock, map_none]
    rw [wp_bind, WriteLock.tryLock, wp_bind, wp_get]
    simp only [World.lockFile, World.setActive_profilerLock, hlock]
    cases harg : arg.toInt? with
    | none => exact ⟨rfl, h₁.setActive false⟩
    | some q =>
      rw [wp_bind, wp_modify]
      have hdone := (h₁.step' (e := .lockProfiler q) (hA q harg hlock) hlock rfl).setActive false
      refine ⟨rfl, ?_⟩
      rw [wp_bind, ActiveSessions.getProfilePids, wp_bind, wp_get, wp_pure]
      cases hpids : World.profiles _ |>.lookup name <;> exact hdone
  | some q =>
    simp only [World.lockFile, World.setActive_profilerLock, hlock, map_some, wp_ite,
      wp_pure, wp_throw]
    refine ⟨fun _ => ⟨rfl, ?_⟩, fun _ => ⟨rfl, h₁.setActive false⟩⟩
    rw [wp_bind, ActiveSessions.getProfilePids, wp_bind, wp_get, wp_pure]
    cases hpids : World.profiles _ |>.lookup name <;> exact h₁.setActive false

theorem limited_popProfileRegionNames {arg : PidArg}
    (hA : (∃ q, arg = .pid q ∧ w.profilerLock = some q) → A .unlockProfiler) :
    Limited A w₀ (popProfileRegionNames arg name) w := by
  have h₁ : Within A w₀ true (w.setActive true) := h.setActive true
  rw [Limited, popProfileRegionNames, wp_bind]
  refine wp_withLock h.isFileActive ?_
  rw [wp_bind, wp_tryLock_none, wp_ite]
  refine ⟨fun hown => ?_, fun _ => ⟨rfl, h₁.setActive false⟩⟩
  simp only [World.lockFile, World.setActive_profilerLock, map_eq_some_iff] at hown
  obtain ⟨q, hlock, rfl⟩ := hown
  refine (wp_unlock (by exact hlock)).mpr ⟨rfl, ?_⟩
  have hfree := (h₁.step' (e := .unlockProfiler) (hA ⟨q, rfl, hlock⟩) trivial rfl).setActive false
  rw [wp_bind, ActiveSessions.popProfileRegionNames, wp_bind, wp_get, wp_bind, wp_set, wp_pure]
  have hdone := hfree.quiet (j := { w.journal with
    regionNames := w.journal.regionNames.erase name }) (.of_stderr rfl)
  rw [show (((w.setActive true).setLockFile .profiler none).setActive false).journal = w.journal
    from rfl]
  cases w.journal.regionNames.lookup name <;> exact hdone

end

/-! ### Access lists and descriptions -/

theorem wp_getGroupAccess {Q : List String × List String → World → Prop} {group : String} {client : Pid} (hQ : ∀ r, Q r w)
    (hE : ∀ e, E e w) : wp (getGroupAccess group client) Q E w := by
  rw [getGroupAccess, wp_ite]
  refine ⟨fun _ => ?_, fun _ => ?_⟩
  · rw [wp_bind, wp_hasCapSysAdmin]
    refine ⟨fun pi _ => ?_, fun _ => hE _⟩
    rw [wp_ite]
    exact ⟨fun _ => hQ _, fun _ => hE _⟩
  · exact (AccessLists.reads_getGroupAccess (p := client) group).wp ⟨rfl, rfl, rfl, rfl⟩
      (fun r _ => hQ r) fun e _ => hE e

theorem wp_validateGroup {Q : String → World → Prop} {group : String}
    (hQ : ∀ name, Q name w) (hE : ∀ e, E e w) : wp (AccessLists.validateGroup group) Q E w :=
  (AccessLists.reads_validateGroup (p := 0) group).wp ⟨rfl, rfl, rfl, rfl⟩ (fun r _ => hQ r)
    fun e _ => hE e

theorem wp_settingAccess {client : Pid} {body : Py Unit} (h : wp body Q E w) (hE : ∀ e, E e w) :
    wp (settingAccess client body) Q E w := by
  rw [settingAccess, wp_bind, wp_hasCapSysAdmin]
  refine ⟨fun pi _ => ?_, fun _ => hE _⟩
  rw [wp_ite]
  exact ⟨fun _ => h, fun _ => hE _⟩

theorem wp_getSignalInfo {Q : List (String × SignalInfo) → World → Prop} {names : List String} (hQ : ∀ r, Q r w) (hE : ∀ e, E e w) :
    wp (getSignalInfo names) Q E w := by
  induction names generalizing Q with
  | nil => exact hQ _
  | cons name names ih =>
    rw [getSignalInfo, wp_bind, Pio.signalInfo, wp_bind, wp_get]
    cases w.platform.signalInfo name with
    | none => exact hE _
    | some info =>
      rw [wp_pure, wp_bind]
      exact ih fun _ => hQ _

theorem wp_getControlInfo {Q : List (String × String × ℤ) → World → Prop} {names : List String} (hQ : ∀ r, Q r w) (hE : ∀ e, E e w) :
    wp (getControlInfo names) Q E w := by
  induction names generalizing Q with
  | nil => exact hQ _
  | cons name names ih =>
    rw [getControlInfo, wp_bind, Pio.controlInfo, wp_bind, wp_get]
    cases w.platform.controlInfo name with
    | none => exact hE _
    | some info =>
      rw [wp_pure, wp_bind]
      exact ih fun _ => hQ _

/-! ### Every call -/

/-- **Refinement.** From a sane state with no lock context open, a call is a sequence of its
effects, and leaves no lock context open, whether it returns or raises. -/
theorem within_run (r : Call) (hw : Sane w) (hact : w.isFileActive = false)
    (hfresh : w.freshPopen w.outcomes = true) :
    wp r.run (fun _ => Within (r.effects w) w false) (fun _ => Within (r.effects w) w false) w := by
  have h : Within (r.effects w) w false w := .refl hact hw
  have hconfig : (∀ config, r.effects w (.setConfig config)) →
      ∀ config, Within (r.effects w) w false (w.withConfig config) :=
    fun hA config => h.step' (e := .setConfig config) (hA config) trivial rfl
  cases r with
  | getGroupAccess group client =>
    rw [Call.run, wp_map]
    exact wp_getGroupAccess (fun _ => h) fun _ => h
  | setGroupAccess group signals controls client =>
    rw [Call.run, wp_map]
    refine wp_settingAccess ?_ fun _ => h
    rw [AccessLists.setGroupAccess, wp_bind]
    refine wp_validateGroup (fun name => ?_) fun _ => h
    rw [wp_bind, wp_modify, wp_modify]
    exact hconfig (fun _ => ⟨_, rfl⟩) _
  | setGroupAccessSignals group signals client =>
    rw [Call.run, wp_map]
    refine wp_settingAccess ?_ fun _ => h
    rw [AccessLists.setGroupAccessSignals, wp_bind]
    refine wp_validateGroup (fun name => ?_) fun _ => h
    exact hconfig (fun _ => ⟨_, rfl⟩) _
  | setGroupAccessControls group controls client =>
    rw [Call.run, wp_map]
    refine wp_settingAccess ?_ fun _ => h
    rw [AccessLists.setGroupAccessControls, wp_bind]
    refine wp_validateGroup (fun name => ?_) fun _ => h
    exact hconfig (fun _ => ⟨_, rfl⟩) _
  | getUserAccess user client =>
    rw [Call.run, wp_map]
    exact (AccessLists.reads_getUserAccess user).wp ⟨rfl, rfl, rfl, rfl⟩ (fun _ _ => h) fun _ _ => h
  | getAllAccess =>
    rw [Call.run, wp_map]
    exact (AccessLists.reads_getAllAccess (p := 0)).wp ⟨rfl, rfl, rfl, rfl⟩ (fun _ _ => h)
      fun _ _ => h
  | getSignalInfo names =>
    rw [Call.run, wp_map]
    exact wp_getSignalInfo (fun _ => h) fun _ => h
  | getControlInfo names =>
    rw [Call.run, wp_map]
    exact wp_getControlInfo (fun _ => h) fun _ => h
  | lockControl client => exact h
  | unlockControl client => exact h
  | openSession user client =>
    rw [Call.run, wp_map]
    exact within_openSession h (fun _ he => he) (fun _ hw' _ => hw') fun _ _ hw' => hw'
  | closeSession client request =>
    rw [Call.run, wp_map]
    exact limited_closeSession h fun _ he => he
  | closeSessionAdmin client request =>
    rw [Call.run, wp_map]
    exact limited_closeSessionAdmin h fun hmay dir => ⟨hmay, dir, rfl⟩
  | closeAllSessions =>
    rw [Call.run, wp_map]
    exact limited_closeAllSessions h fun p dir => ⟨p, dir, rfl⟩
  | startBatch client signals controls =>
    rw [Call.run, wp_map]
    exact limited_startBatch h hfresh fun _ he => he
  | stopBatch client server =>
    rw [Call.run, wp_map]
    exact limited_stopBatch h fun _ he => he
  | readSignal client name domain domainIdx =>
    rw [Call.run, wp_map]
    exact limited_readSignal h fun _ he => he
  | writeControl client name domain domainIdx setting =>
    rw [Call.run, wp_map]
    exact limited_writeControl h fun _ he => he
  | restoreControl client =>
    rw [Call.run, wp_map]
    exact limited_restoreControl h fun _ he => he
  | startProfile user client name =>
    rw [Call.run, wp_map]
    exact limited_startProfile h fun _ he => he
  | stopProfile client names =>
    rw [Call.run, wp_map]
    exact limited_stopProfile h fun _ he => he
  | getProfilePids client name =>
    rw [Call.run, wp_map]
    exact limited_getProfilePids h fun q hq hfree => ⟨q, hq, hfree, rfl⟩
  | popProfileRegionNames client name =>
    rw [Call.run, wp_map]
    exact limited_popProfileRegionNames h fun hown => ⟨hown, rfl⟩
  | checkClient client =>
    rw [Call.run, wp_map]
    exact limited_checkClient h fun hp hdead dir => ⟨hp, hdead, dir, rfl⟩
  | closeInactiveClients =>
    rw [Call.run, wp_map]
    exact limited_closeInactiveClients h (fun p => .inl ⟨p, rfl⟩) fun p dir => .inr ⟨p, dir, rfl⟩

theorem within_afterCall {o : Outcomes} (r : Call) (hw : Sane w) (hact : w.isFileActive = false)
    (hfresh : w.freshPopen o = true) :
    Within (r.effects (w.withOutcomes o)) (w.withOutcomes o) false (w.afterCall o r) :=
  wp_final.mp (within_run r ⟨hw.profiles, hw.servers⟩ hact hfresh)

end PlatformService

end Geopm
