import Geopm.Lib.LastOf
import Geopm.Lib.Lts
import Geopm.Pio.IOGroup

/-!
# `ServiceIOGroup` and the batch server

A client pushes requests to `ServiceIOGroup`, which has a batch server serve them: the settings and
the samples are passed through shared memory, in which they are found by their positions.

* `ServiceIOGroup` and `Session` : the client, and the client with its batch server;
* `Session.adjust`, `writeBatch`, `readBatch`, `sample` : the methods of the client, with what the
  batch server does for them;
* `Session.batch_slots` : signals are sampled as the server reads them, and what has been adjusted
  is written, if no setting is left over from an earlier batch;
* `Session.stale_setting` : a setting that has been written is written again with the next batch.
-/

namespace Geopm.Pio

open List hiding get modify set
open Prog

/-- `GEOPM_NAME_MAX`. -/
def nameMax : ℕ := 255

/-- What the service says about the signals and controls of the client: their domains, and how many
indices a domain has. -/
structure ServiceInfo where
  signalDomain : String → Option ℤ
  controlDomain : String → Option ℤ
  numDomain : ℤ → ℤ

/-- The members of `ServiceIOGroup`.  A setting or sample is NaN or one of `V`. -/
structure ServiceIOGroup (V : Type) where
  signalRequests : List Request := []
  controlRequests : List Request := []
  isBatchActive : Bool := false
  batchSamples : List (Option V) := []
  batchSettings : List (Option V) := []

namespace ServiceIOGroup

variable {V : Type}

def stripPluginName (name : String) : String :=
  if "SERVICE::".toList.isPrefixOf name.toList then String.ofList (name.toList.drop 9) else name

/-- The checks of `push_signal` and `push_control`, and the request that is pushed. -/
def pushRequest (method kind : String) (domain : String → Option ℤ) (numDomain : ℤ → ℤ)
    (t : Request) : Except Exception Request :=
  match domain t.name with
  | none => .error ⟨"ServiceIOGroup::" ++ method ++ "(): " ++ kind ++ " name \"" ++ t.name ++
      "\" not found", [], .invalid⟩
  | some domainType =>
    if t.domainType ≠ domainType then
      .error ⟨"ServiceIOGroup::" ++ method ++ "(): domain_type requested does not match the " ++
        "domain of the " ++ kind ++ " (" ++ t.name ++ ").", [], .invalid⟩
    else if t.domainIdx < 0 ∨ numDomain t.domainType ≤ t.domainIdx then
      .error ⟨"ServiceIOGroup::" ++ method ++ "(): domain_idx out of range", [], .invalid⟩
    else if nameMax ≤ (stripPluginName t.name).utf8ByteSize then
      .error ⟨"ServiceIOGroup::" ++ method ++ "(): " ++ kind ++ "_name: " ++ t.name ++
        " is too long", [], .invalid⟩
    else .ok { t with name := stripPluginName t.name }

def pushSignal (info : ServiceInfo) (t : Request) (c : ServiceIOGroup V) :
    Except Exception (ℤ × ServiceIOGroup V) := do
  let request ← pushRequest "push_signal" "signal" info.signalDomain info.numDomain t
  pure (c.signalRequests.length, { c with signalRequests := c.signalRequests ++ [request] })

def pushControl (info : ServiceInfo) (t : Request) (c : ServiceIOGroup V) :
    Except Exception (ℤ × ServiceIOGroup V) := do
  let request ← pushRequest "push_control" "control" info.controlDomain info.numDomain t
  pure (c.controlRequests.length, { c with controlRequests := c.controlRequests ++ [request] })

/-- The requests are pushed one after the other: the indices that are returned, and the client. -/
def pushEach (push : Request → ServiceIOGroup V → Except Exception (ℤ × ServiceIOGroup V)) :
    List Request → ServiceIOGroup V → Except Exception (List ℤ × ServiceIOGroup V)
  | [], c => .ok ([], c)
  | t :: ts, c => do
    let (i, c) ← push t c
    let (is, c) ← pushEach push ts c
    pure (i :: is, c)

/-- A request without the name of the plugin. -/
def strip (t : Request) : Request := { t with name := stripPluginName t.name }

variable {method kind : String} {domain : String → Option ℤ} {numDomain : ℤ → ℤ}
  {info : ServiceInfo} {t t' : Request} {ts : List Request} {i : ℤ} {is : List ℤ}
  {c c' : ServiceIOGroup V}

theorem pushRequest_eq_ok (h : pushRequest method kind domain numDomain t = .ok t') :
    t' = strip t := by
  unfold pushRequest at h
  split at h
  · cases h
  · split_ifs at h
    exact (Except.ok.inj h).symm

theorem pushSignal_eq_ok (h : pushSignal info t c = .ok (i, c')) :
    i = c.signalRequests.length ∧
      c' = { c with signalRequests := c.signalRequests ++ [strip t] } := by
  unfold pushSignal at h
  cases hpush : pushRequest "push_signal" "signal" info.signalDomain info.numDomain t with
  | error e => rw [hpush] at h; cases h
  | ok request =>
    rw [hpush, pushRequest_eq_ok hpush] at h
    cases h
    exact ⟨rfl, rfl⟩

theorem pushControl_eq_ok (h : pushControl info t c = .ok (i, c')) :
    i = c.controlRequests.length ∧
      c' = { c with controlRequests := c.controlRequests ++ [strip t] } := by
  unfold pushControl at h
  cases hpush : pushRequest "push_control" "control" info.controlDomain info.numDomain t with
  | error e => rw [hpush] at h; cases h
  | ok request =>
    rw [hpush, pushRequest_eq_ok hpush] at h
    cases h
    exact ⟨rfl, rfl⟩

/-- The requests `rs` have been appended, and each index is the position of its request. -/
theorem pushEach_eq_ok
    {push : Request → ServiceIOGroup V → Except Exception (ℤ × ServiceIOGroup V)}
    (requests : ServiceIOGroup V → List Request)
    (put : ServiceIOGroup V → List Request → ServiceIOGroup V)
    (hrequests : ∀ c rs, requests (put c rs) = rs) (hput : ∀ c rs rs', put (put c rs) rs' = put c rs')
    (hself : ∀ c, put c (requests c) = c)
    (hpush : ∀ t c i c', push t c = .ok (i, c') →
      i = (requests c).length ∧ c' = put c (requests c ++ [strip t]))
    (h : pushEach push ts c = .ok (is, c')) :
    c' = put c (requests c ++ ts.map strip) ∧
      ∀ (n : ℕ) i, is[n]? = some i → i = (requests c).length + n := by
  induction ts generalizing c is with
  | nil =>
    cases h
    refine ⟨?_, fun n i hi => absurd hi (by simp)⟩
    rw [map_nil, append_nil, hself]
  | cons t ts ih =>
    unfold pushEach at h
    cases hfirst : push t c with
    | error e => rw [hfirst] at h; cases h
    | ok r =>
      obtain ⟨i, d⟩ := r
      obtain ⟨hi, rfl⟩ := hpush t c i d hfirst
      cases hrest : pushEach push ts (put c (requests c ++ [strip t])) with
      | error e =>
        rw [hfirst] at h
        change (pushEach push ts _ >>= _) = _ at h
        rw [hrest] at h
        cases h
      | ok r =>
        obtain ⟨js, d⟩ := r
        rw [hfirst] at h
        change (pushEach push ts _ >>= _) = _ at h
        rw [hrest] at h
        cases h
        obtain ⟨hd, hjs⟩ := ih hrest
        rw [hrequests] at hd hjs
        refine ⟨?_, fun n j hj => ?_⟩
        · rw [hd, hput, append_assoc, map_cons, singleton_append]
        · cases n with
          | zero =>
            rw [← Option.some.inj hj, hi, Nat.cast_zero, Int.add_zero]
          | succ n =>
            rw [hjs n j hj, length_append, length_singleton]
            push_cast
            omega

theorem pushEach_pushSignal (h : pushEach (pushSignal info) ts c = .ok (is, c')) :
    c' = { c with signalRequests := c.signalRequests ++ ts.map strip } ∧
      ∀ (n : ℕ) i, is[n]? = some i → i = c.signalRequests.length + n :=
  pushEach_eq_ok signalRequests (fun c rs => { c with signalRequests := rs }) (fun _ _ => rfl)
    (fun _ _ _ => rfl) (fun _ => rfl) (fun _ _ _ _ => pushSignal_eq_ok) h

theorem pushEach_pushControl (h : pushEach (pushControl info) ts c = .ok (is, c')) :
    c' = { c with controlRequests := c.controlRequests ++ ts.map strip } ∧
      ∀ (n : ℕ) i, is[n]? = some i → i = c.controlRequests.length + n :=
  pushEach_eq_ok controlRequests (fun c rs => { c with controlRequests := rs }) (fun _ _ => rfl)
    (fun _ _ _ => rfl) (fun _ => rfl) (fun _ _ _ _ => pushControl_eq_ok) h

end ServiceIOGroup

/-- The members of `BatchServerImp`.  The index that the `PlatformIO` of the server gives to a
request is represented by the request. -/
structure BatchServerImp where
  signalHandle : List Request := []
  controlHandle : List Request := []

/-- A client with its batch server, the shared memory and the platform.  The rest is the history:
what the server has adjusted for the last batch, and what the client has adjusted since. -/
structure Session (V : Type) where
  client : ServiceIOGroup V
  server : BatchServerImp := {}
  signalShmem : List (Option V) := []
  controlShmem : List (Option V) := []
  signals : Request → Option V
  controls : Request → V
  adjusted : List (Request × V) := []
  since : List (ℕ × V) := []

namespace Session

variable {V : Type}

/-! ### The batch server -/

/-- `push_requests`, and the creation of the shared memory. -/
def pushRequests (s : Session V) : Session V :=
  { s with
    server := ⟨s.client.signalRequests, s.client.controlRequests⟩
    signalShmem := List.replicate s.client.signalRequests.length none
    controlShmem := List.replicate s.client.controlRequests.length none }

def readAndUpdate (s : Session V) : Session V :=
  if s.server.signalHandle = [] then s
  else { s with signalShmem := s.server.signalHandle.map s.signals }

/-- The loop of `update_and_write`: the controls whose settings are valid. -/
def validSettings : List Request → List (Option V) → List (Request × V)
  | handle :: handles, some setting :: settings =>
    (handle, setting) :: validSettings handles settings
  | _ :: handles, none :: settings => validSettings handles settings
  | _, _ => []

/-- The controls after some of them have been adjusted and written. -/
def writeControls (adjusts : List (Request × V)) (controls : Request → V) : Request → V :=
  adjusts.foldl (fun controls e r => if r = e.1 then e.2 else controls r) controls

def updateAndWrite (s : Session V) : Session V :=
  if s.server.controlHandle = [] then s
  else
    let adjusts := validSettings s.server.controlHandle s.controlShmem
    { s with controls := writeControls adjusts s.controls, adjusted := adjusts }

/-! ### The client -/

def initBatchServer (s : Session V) : Session V :=
  if s.client.isBatchActive = false ∧ (s.client.signalRequests ≠ [] ∨ s.client.controlRequests ≠ [])
  then
    let s := s.pushRequests
    { s with
      client := { s.client with
        isBatchActive := true
        batchSettings := s.client.batchSettings ++
          List.replicate (s.client.controlRequests.length - s.client.batchSettings.length) none } }
  else s

/-- `read_batch`, with `BatchClientImp::read_batch`. -/
def readBatch (s : Session V) : Session V :=
  let s := s.initBatchServer
  if s.client.isBatchActive = true ∧ s.client.signalRequests ≠ [] then
    let s := s.readAndUpdate
    { s with
      client := { s.client with
        batchSamples := s.signalShmem.take s.client.signalRequests.length } }
  else s

/-- `write_batch`, with `BatchClientImp::write_batch`. -/
def writeBatch (s : Session V) : Session V :=
  if s.client.isBatchActive = true ∧ s.client.controlRequests ≠ [] then
    let s := { s with controlShmem := s.client.batchSettings }
    { s.updateAndWrite with since := [] }
  else { s with adjusted := [], since := [] }

/-- `sample`. -/
def sample (s : Session V) (sampleIdx : ℤ) : Except Exception (Option V) :=
  if s.client.signalRequests = [] then
    .error ⟨"ServiceIOGroup::sample() called prior to any calls to push_signal()", [], .invalid⟩
  else if s.client.batchSamples = [] then
    .error ⟨"ServiceIOGroup::sample() called prior to any calls to read_batch()", [], .invalid⟩
  else
    match if sampleIdx < 0 then none else s.client.batchSamples[sampleIdx.toNat]? with
    | none => .error ⟨"ServiceIOGroup::sample() called with parameter that was not returned by " ++
        "push_signal()", [], .invalid⟩
    | some v => .ok v

/-- `adjust`, with a setting that is not NaN. -/
def adjust (controlIdx : ℤ) (setting : V) : EStateM Exception (Session V) Unit := do
  let s ← get
  if s.client.controlRequests = [] then
    throw ⟨"ServiceIOGroup::adjust() called prior to any calls to push_control()", [], .invalid⟩
  else do
    modify initBatchServer
    let s ← get
    if controlIdx < 0 ∨ (s.client.batchSettings.length : ℤ) ≤ controlIdx then
      throw ⟨"ServiceIOGroup::adjust() called with an initial parameter that was not returned by " ++
        "push_control()", [], .invalid⟩
    else
      set { s with
        client := { s.client with
          batchSettings := s.client.batchSettings.set controlIdx.toNat (some setting) }
        since := s.since ++ [(controlIdx.toNat, setting)] }

/-! ### Runs -/

/-- What happens: the calls of the client, and what others change on the platform. -/
inductive Call (V : Type) where
  | adjust (controlIdx : ℤ) (setting : V)
  | writeBatch
  | readBatch
  | others (signals : Request → Option V) (controls : Request → V)

/-- The state after a call. -/
def next (s : Session V) : Call V → Session V
  | .adjust controlIdx setting => Prog.final (adjust controlIdx setting) s
  | .writeBatch => s.writeBatch
  | .readBatch => s.readBatch
  | .others signals controls => { s with signals := signals, controls := controls }

/-- The state after the requests have been pushed. -/
def start (client : ServiceIOGroup V) (signals : Request → Option V) (controls : Request → V) :
    Session V where
  client := client
  signals := signals
  controls := controls

/-- The setting of a control that an adjustment gives. -/
def settingOf (r : Request) (e : Request × V) : Option V := if e.1 = r then some e.2 else none

/-- The last setting that the client has given for a control since the last batch. -/
def lastSetting (s : Session V) (r : Request) : Option V :=
  lastOf (fun e => if s.client.controlRequests[e.1]? = some r then some e.2 else none) s.since

/-- The next batch read gives the server's values. -/
def ReadsServer (s : Session V) : Prop :=
  ∀ (i : ℕ) t, s.client.signalRequests[i]? = some t → s.readBatch.sample i = .ok (s.signals t)

/-- The next batch write adjusts what the client has adjusted since the last one, to the last
settings, and leaves the other controls as they are. -/
def WritesAdjusted (s : Session V) : Prop :=
  ∀ r, lastOf (settingOf r) s.writeBatch.adjusted = s.lastSetting r ∧
    s.writeBatch.controls r = (s.lastSetting r).getD (s.controls r)

/-- Every slot that holds a setting has been adjusted since the last batch, and of two slots of one
control the later one has been adjusted last. -/
structure Fresh (s : Session V) : Prop where
  current : ∀ (i : ℕ) v, s.client.batchSettings[i]? = some (some v) → ∃ w, (i, w) ∈ s.since
  ordered : ∀ i j : ℕ, i < j → s.client.controlRequests[i]? = s.client.controlRequests[j]? →
    ∀ before v after, s.since = before ++ (i, v) :: after → (∃ w, (j, w) ∈ s.since) →
      ∃ w, (j, w) ∈ after

/-- The setting of a slot that an adjustment gives. -/
def slotSetting (i : ℕ) (e : ℕ × V) : Option V := if e.1 = i then some e.2 else none

/-- The server has the requests of the client, and the slots hold what has been adjusted. -/
structure Inv (s : Session V) : Prop where
  active : s.client.isBatchActive = true →
    s.server = ⟨s.client.signalRequests, s.client.controlRequests⟩ ∧
      s.client.batchSettings.length = s.client.controlRequests.length
  inactive : s.client.isBatchActive = false → s.client.batchSettings = [] ∧ s.since = []
  slots : ∀ i v, lastOf (slotSetting i) s.since = some v →
    s.client.batchSettings[i]? = some (some v)

variable {s : Session V}

theorem inv_start {c : ServiceIOGroup V} (hactive : c.isBatchActive = false)
    (hsettings : c.batchSettings = []) (signals : Request → Option V) (controls : Request → V) :
    (start c signals controls).Inv where
  active h := absurd (hactive.symm.trans h) Bool.false_ne_true
  inactive _ := ⟨hsettings, rfl⟩
  slots _ _ h := nomatch h

theorem Inv.initBatchServer (h : s.Inv) : s.initBatchServer.Inv := by
  unfold Session.initBatchServer
  split_ifs with hinit
  · obtain ⟨hsettings, hsince⟩ := h.inactive hinit.1
    refine ⟨fun _ => ⟨rfl, ?_⟩, fun hactive => absurd hactive.symm Bool.false_ne_true, ?_⟩
    · change (s.client.batchSettings ++ List.replicate (s.client.controlRequests.length -
        s.client.batchSettings.length) none).length = s.client.controlRequests.length
      rw [hsettings, nil_append, length_replicate, length_nil, Nat.sub_zero]
    · intro i v hv
      change lastOf (slotSetting i) s.since = some v at hv
      rw [hsince] at hv
      cases hv
  · exact h

/-- What `init_batch_server` leaves as it is. -/
theorem initBatchServer_same (s : Session V) :
    s.initBatchServer.client.signalRequests = s.client.signalRequests ∧
      s.initBatchServer.client.controlRequests = s.client.controlRequests ∧
      s.initBatchServer.signals = s.signals ∧ s.initBatchServer.controls = s.controls ∧
      s.initBatchServer.since = s.since := by
  unfold initBatchServer
  split_ifs <;> exact ⟨rfl, rfl, rfl, rfl, rfl⟩

theorem initBatchServer_active
    (h : s.client.signalRequests ≠ [] ∨ s.client.controlRequests ≠ []) :
    s.initBatchServer.client.isBatchActive = true := by
  unfold initBatchServer
  split_ifs with hinit
  · rfl
  · by_contra hactive
    exact hinit ⟨Bool.not_eq_true _ ▸ hactive, h⟩

theorem Inv.adjust (h : s.Inv) (i : ℤ) (v : V) : (Prog.final (Session.adjust i v) s).Inv := by
  refine (Prog.wp_final (P := Session.Inv)).mp ?_
  unfold Session.adjust
  rw [Prog.wp_bind, wp_get, wp_ite]
  refine ⟨fun _ => h, fun hne => ?_⟩
  rw [Prog.wp_bind, wp_modify, Prog.wp_bind, wp_get, wp_ite]
  refine ⟨fun _ => h.initBatchServer, fun hi => ?_⟩
  rw [wp_set]
  have hinit := h.initBatchServer
  have hactive : s.initBatchServer.client.isBatchActive = true := initBatchServer_active (Or.inr hne)
  obtain ⟨hserver, hlength⟩ := hinit.active hactive
  refine ⟨fun _ => ⟨hserver, by rw [length_set]; exact hlength⟩, fun hfalse => ?_, ?_⟩
  · exact absurd (hfalse.symm.trans hactive) Bool.false_ne_true
  · intro j w hw
    dsimp only at hw ⊢
    rw [lastOf_concat] at hw
    by_cases hj : i.toNat = j
    · subst hj
      have hself : slotSetting i.toNat (i.toNat, v) = some v := if_pos rfl
      rw [hself, Option.some_or] at hw
      rw [← Option.some.inj hw, getElem?_set_self (by omega)]
    · have hother : slotSetting j (i.toNat, v) = none := if_neg hj
      rw [hother, Option.none_or] at hw
      rw [getElem?_set_ne hj]
      exact hinit.slots j w hw

theorem Inv.next (h : s.Inv) (c : Call V) : (s.next c).Inv := by
  cases c with
  | adjust i v => exact h.adjust i v
  | writeBatch =>
    change s.writeBatch.Inv
    unfold Session.writeBatch updateAndWrite
    dsimp only
    split_ifs with hactive
    all_goals
      refine ⟨fun hactive => h.active hactive, fun hfalse => ⟨(h.inactive hfalse).1, rfl⟩, ?_⟩
      exact fun _ _ hv => nomatch hv
  | readBatch =>
    change s.readBatch.Inv
    have hinit := h.initBatchServer
    unfold Session.readBatch readAndUpdate
    dsimp only
    split_ifs <;> exact ⟨hinit.active, hinit.inactive, hinit.slots⟩
  | others signals controls => exact ⟨h.active, h.inactive, h.slots⟩

/-! ### Signals -/

theorem readsServer (h : s.Inv) : s.ReadsServer := by
  intro i t ht
  obtain ⟨hsignals, -, hvalues, -, -⟩ := initBatchServer_same s
  have hne : s.client.signalRequests ≠ [] := by
    rintro hnil
    rw [hnil] at ht
    cases ht
  have hactive := initBatchServer_active (s := s) (Or.inl hne)
  have hserver := (h.initBatchServer.active hactive).1
  have hread : s.readBatch.client.batchSamples = s.client.signalRequests.map s.signals ∧
      s.readBatch.client.signalRequests = s.client.signalRequests := by
    unfold Session.readBatch readAndUpdate
    dsimp only
    rw [hsignals] at hserver ⊢
    rw [if_pos ⟨hactive, hne⟩, hserver, if_neg hne, hvalues]
    refine ⟨?_, hsignals⟩
    dsimp only
    rw [hsignals, take_of_length_le (length_map _).le]
  have hmap : s.client.signalRequests.map s.signals ≠ [] := fun h => hne (map_eq_nil_iff.mp h)
  unfold sample
  rw [hread.1, hread.2, if_neg hne, if_neg hmap, if_neg (by omega), Int.toNat_natCast,
    getElem?_map, ht]
  rfl

/-! ### Controls -/

theorem validSettings_eq (handles : List Request) (settings : List (Option V)) :
    validSettings handles settings =
      (handles.zip settings).filterMap fun z => z.2.map fun setting => (z.1, setting) := by
  induction handles generalizing settings with
  | nil => rw [validSettings, zip_nil_left, filterMap_nil]; all_goals simp
  | cons handle handles ih =>
    match settings with
    | [] => rw [validSettings, zip_nil_right, filterMap_nil]; all_goals simp
    | some setting :: settings =>
      rw [validSettings, ih, zip_cons_cons]
      rfl
    | none :: settings =>
      rw [validSettings, ih, zip_cons_cons]
      rfl

theorem writeControls_apply (adjusts : List (Request × V)) (controls : Request → V) (r : Request) :
    writeControls adjusts controls r = (lastOf (settingOf r) adjusts).getD (controls r) := by
  induction adjusts using List.reverseRecOn with
  | nil => rfl
  | append_singleton adjusts e ih =>
    unfold writeControls settingOf at *
    rw [List.foldl_append, lastOf_concat]
    change (if r = e.1 then e.2 else _) = _
    by_cases he : e.1 = r
    · rw [if_pos he.symm, if_pos he]
      rfl
    · rw [if_neg (Ne.symm he), if_neg he, ih]
      rfl

theorem settingOf_slot {r : Request} {z : Request × Option V} {v : V} :
    (z.2.map fun setting => (z.1, setting)).bind (settingOf r) = some v ↔ z = (r, some v) := by
  obtain ⟨t, setting⟩ := z
  unfold settingOf
  cases setting with
  | none => simp
  | some w =>
    rw [Option.map_some, Option.bind_some]
    split_ifs with ht
    · change t = r at ht
      simp [ht]
    · simp [ht]

theorem lastOf_validSettings (h : s.Inv) (hfresh : s.Fresh) (hactive : s.client.isBatchActive = true)
    (r : Request) :
    lastOf (settingOf r) (validSettings s.client.controlRequests s.client.batchSettings) =
      s.lastSetting r := by
  have hlength := (h.active hactive).2
  rw [validSettings_eq, lastOf_filterMap]
  -- a slot of the control that holds a setting has been adjusted
  have hslot : ∀ (j : ℕ) z v, (s.client.controlRequests.zip s.client.batchSettings)[j]? = some z →
      (z.2.map fun setting => (z.1, setting)).bind (settingOf r) = some v →
      s.client.controlRequests[j]? = some r ∧ ∃ w, (j, w) ∈ s.since := by
    intro j z v hj hz
    rw [settingOf_slot.mp hz, getElem?_zip_eq_some] at hj
    exact ⟨hj.1, hfresh.current j v hj.2⟩
  cases hlast : s.lastSetting r with
  | none =>
    rw [lastOf_eq_none_iff]
    intro z hz
    obtain ⟨j, hj⟩ := mem_iff_getElem?.mp hz
    by_contra hne
    obtain ⟨v, hv⟩ := Option.ne_none_iff_exists'.mp hne
    obtain ⟨hr, w, hw⟩ := hslot j z v hj hv
    have hnone := lastOf_eq_none_iff.mp hlast (j, w) hw
    rw [if_pos hr] at hnone
    cases hnone
  | some v =>
    obtain ⟨before, ⟨i, w⟩, after, hsince, hv, hafter⟩ := lastOf_eq_some_iff.mp hlast
    obtain ⟨hr, hw⟩ := Option.ite_none_right_eq_some.mp hv
    obtain rfl := Option.some.inj hw
    have hi : s.client.batchSettings[i]? = some (some w) := by
      refine h.slots i w (lastOf_eq_some_iff.mpr ⟨before, (i, w), after, hsince, if_pos rfl, ?_⟩)
      intro e he
      refine if_neg fun hei => ?_
      have hnone := hafter e he
      rw [hei, if_pos hr] at hnone
      cases hnone
    refine lastOf_eq_some_of_getElem? (getElem?_zip_eq_some.mpr ⟨hr, hi⟩)
      (settingOf_slot.mpr rfl) fun j z hij hj => ?_
    by_contra hne
    obtain ⟨u, hu⟩ := Option.ne_none_iff_exists'.mp hne
    obtain ⟨hrj, hadjusted⟩ := hslot j z u hj hu
    obtain ⟨x, hx⟩ := hfresh.ordered i j hij (hr.trans hrj.symm) before w after hsince hadjusted
    have hnone := hafter (j, x) hx
    rw [if_pos hrj] at hnone
    cases hnone

theorem writesAdjusted (h : s.Inv) (hfresh : s.Fresh) : s.WritesAdjusted := by
  intro r
  unfold Session.writeBatch updateAndWrite
  dsimp only
  split_ifs with hactive hcontrols
  · rw [(h.active hactive.1).1] at hcontrols
    exact absurd hcontrols hactive.2
  · dsimp only
    rw [(h.active hactive.1).1, writeControls_apply, lastOf_validSettings h hfresh hactive.1]
    exact ⟨rfl, rfl⟩
  · have hnone : s.lastSetting r = none := by
      rw [Session.lastSetting, lastOf_eq_none_iff]
      rintro ⟨i, v⟩ he
      refine if_neg fun hi => ?_
      rw [not_and_or, not_not] at hactive
      obtain hinactive | hnil := hactive
      · rw [(h.inactive (Bool.not_eq_true _ ▸ hinactive)).2] at he
        exact absurd he not_mem_nil
      · rw [hnil] at hi
        cases hi
    rw [hnone]
    exact ⟨rfl, rfl⟩

/-! ### Every run -/

open ServiceIOGroup

theorem next_requests (s : Session V) (e : Call V) :
    (s.next e).client.signalRequests = s.client.signalRequests ∧
      (s.next e).client.controlRequests = s.client.controlRequests := by
  obtain ⟨hsignals, hcontrols, -⟩ := initBatchServer_same s
  cases e with
  | adjust i v =>
    refine (Prog.wp_final (P := fun s' : Session V =>
      s'.client.signalRequests = s.client.signalRequests ∧
        s'.client.controlRequests = s.client.controlRequests)).mp ?_
    unfold Session.adjust
    rw [Prog.wp_bind, wp_get, wp_ite]
    refine ⟨fun _ => ⟨rfl, rfl⟩, fun _ => ?_⟩
    rw [Prog.wp_bind, wp_modify, Prog.wp_bind, wp_get, wp_ite]
    exact ⟨fun _ => ⟨hsignals, hcontrols⟩, fun _ => ⟨hsignals, hcontrols⟩⟩
  | writeBatch =>
    change s.writeBatch.client.signalRequests = _ ∧ s.writeBatch.client.controlRequests = _
    unfold Session.writeBatch updateAndWrite
    dsimp only
    split_ifs <;> exact ⟨rfl, rfl⟩
  | readBatch =>
    change s.readBatch.client.signalRequests = _ ∧ s.readBatch.client.controlRequests = _
    unfold Session.readBatch readAndUpdate
    dsimp only
    split_ifs <;> exact ⟨hsignals, hcontrols⟩
  | others signals controls => exact ⟨rfl, rfl⟩

/-- In every run, each signal is sampled as the server reads it, and a batch adjusts what the client
has adjusted since the last one, if the slots are fresh. -/
theorem batch_slots {info : ServiceInfo} {ts us : List Request} {is js : List ℤ}
    {b c : ServiceIOGroup V} (hsignals : pushEach (pushSignal info) ts {} = .ok (is, b))
    (hcontrols : pushEach (pushControl info) us b = .ok (js, c)) {signals : Request → Option V}
    {controls : Request → V} (hs : (Lts.ofFun next).Reachable (start c signals controls) s) :
    (∀ (n : ℕ) t i, ts[n]? = some t → is[n]? = some i →
      s.readBatch.sample i = .ok (s.signals (strip t))) ∧
    (∀ (n : ℕ) t i, us[n]? = some t → js[n]? = some i →
      s.client.controlRequests[i.toNat]? = some (strip t)) ∧
    (s.Fresh → s.WritesAdjusted) := by
  obtain ⟨rfl, his⟩ := pushEach_pushSignal hsignals
  obtain ⟨rfl, hjs⟩ := pushEach_pushControl hcontrols
  obtain ⟨hinv, hrequests⟩ : s.Inv ∧ s.client.signalRequests = ts.map strip ∧
      s.client.controlRequests = us.map strip := by
    refine Lts.ReachableIf.invariant (I := fun s => s.Inv ∧
      s.client.signalRequests = ts.map strip ∧ s.client.controlRequests = us.map strip) hs
      ⟨inv_start rfl rfl signals controls, rfl, rfl⟩ ?_
    rintro s e _ ⟨hinv, hsignals, hcontrols⟩ - rfl
    obtain ⟨hsame, hsame'⟩ := next_requests s e
    exact ⟨hinv.next e, hsame.trans hsignals, hsame'.trans hcontrols⟩
  refine ⟨fun n t i ht hi => ?_, fun n t i ht hi => ?_, writesAdjusted hinv⟩
  · rw [his n i hi]
    refine (congrArg s.readBatch.sample (Int.zero_add _)).trans (readsServer hinv n (strip t) ?_)
    rw [hrequests.1, getElem?_map, ht]
    rfl
  · rw [hjs n i hi, hrequests.2, getElem?_map]
    change us[((0 : ℤ) + n).toNat]?.map strip = _
    rw [Int.zero_add, Int.toNat_natCast, ht]
    rfl

/-- The service with one control of the board. -/
def oneControl : ServiceInfo where
  signalDomain _ := none
  controlDomain name := if name = "SERVICE::CPU_FREQUENCY_MAX_CONTROL" then some 0 else none
  numDomain _ := 1

/-- The control of the board, as it is pushed. -/
def maxFrequency : Request := ⟨"SERVICE::CPU_FREQUENCY_MAX_CONTROL", 0, 0⟩

/-- The client that has pushed it. -/
def oneClient : ServiceIOGroup ℕ := { controlRequests := [⟨"CPU_FREQUENCY_MAX_CONTROL", 0, 0⟩] }

theorem pushEach_oneControl :
    pushEach (pushControl oneControl) [maxFrequency] {} = .ok ([0], oneClient) := by
  have hstrip : stripPluginName "SERVICE::CPU_FREQUENCY_MAX_CONTROL" =
      "CPU_FREQUENCY_MAX_CONTROL" := by
    decide +kernel
  have hshort : ¬ nameMax ≤ "CPU_FREQUENCY_MAX_CONTROL".utf8ByteSize := by decide +kernel
  simp [pushEach, pushControl, pushRequest, oneControl, maxFrequency, oneClient, hstrip, hshort,
    pure, Except.pure, bind, Except.bind]

theorem batch_slots_oneControl :
    ([Call.adjust 0 3, .writeBatch, .adjust 0 2].foldl next
      (start oneClient (fun _ => none) fun _ => 1)).WritesAdjusted := by
  have hnone : pushEach (pushSignal oneControl) [] {} = .ok ([], ({} : ServiceIOGroup ℕ)) := rfl
  refine (batch_slots hnone pushEach_oneControl (Lts.reachable_foldl _ _)).2.2 ⟨fun i v hi => ?_, ?_⟩
  · change [some 2][i]? = some (some v) at hi
    cases i with
    | zero => exact ⟨2, mem_cons_self⟩
    | succ i => cases hi
  · rintro i j hij - - - - - ⟨w, hw⟩
    obtain ⟨rfl, -⟩ := Prod.mk.inj (mem_singleton.mp hw)
    exact absurd hij (Nat.not_lt_zero i)

/-- The client sets a control with one batch, others change it, and the next batch of the client, for
which it has adjusted nothing, sets it again. -/
theorem stale_setting :
    ¬ ([Call.adjust 0 3, .writeBatch, .others (fun _ => none) fun _ => 2].foldl next
      (start oneClient (fun _ => none) fun _ => 1)).WritesAdjusted := by
  intro h
  have hcontrol := (h ⟨"CPU_FREQUENCY_MAX_CONTROL", 0, 0⟩).2
  revert hcontrol
  decide

end Session

end Geopm.Pio
