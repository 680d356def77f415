import Geopm.Service.Step
import Geopm.Service.SessionRules

/-!
# The two doors of the service

A client reaches `PlatformService` through D-Bus (`GEOPMService`), or through the socket of
`geopmd-proxy`, which passes its requests on to `GEOPMServiceProxy`.

* `GrpcRequest`, `DbusRequest` : the requests; `GrpcRequest.dbus` : the method that corresponds;
* `GeopmdProxy.forward` : the proxy replaces the session key of a request by one of its own;
* `GEOPMServiceProxy.call`, `GEOPMService.call` : the call of `PlatformService` that is made;
* `SameDoor` : the two doors do the same for a request, on behalf of its sender; `sameDoor_iff` : for
  all requests but two.

`TopoGetCache` does not reach `PlatformService`.
-/

namespace Geopm

open Prog

/-! ### Messages -/

/-- `SessionKey`. -/
structure SessionKey where
  name : String

/-- `InfoRequest`; a field that is a message may be absent. -/
structure InfoRequest where
  sessionKey : Option SessionKey
  names : List String

/-- `PlatformRequest`. -/
structure PlatformRequest where
  name : String
  domain : ℤ
  domainIdx : ℤ

/-- `ReadRequest`. -/
structure ReadRequest where
  sessionKey : Option SessionKey
  request : Option PlatformRequest

/-- `WriteRequest`. -/
structure WriteRequest where
  sessionKey : Option SessionKey
  request : Option PlatformRequest
  setting : ℚ

/-- `BatchKey`. -/
structure BatchKey where
  batchPid : ℤ
  shmemKey : String

/-- `BatchRequest`. -/
structure BatchRequest where
  sessionKey : Option SessionKey
  signalConfig : List PlatformRequest
  controlConfig : List PlatformRequest

/-- `BatchSession`. -/
structure BatchSession where
  sessionKey : Option SessionKey
  batchKey : Option BatchKey

/-- `ProfileRequest`. -/
structure ProfileRequest where
  sessionKey : Option SessionKey
  profileName : String
  regionNames : List String

/-- `GroupAccessRequest`. -/
structure GroupAccessRequest where
  sessionKey : Option SessionKey
  group : String
  allowedSignals : List String
  allowedControls : List String

/-- The requests of the gRPC service that reach `PlatformService`. -/
inductive GrpcRequest where
  | getUserAccess (key : SessionKey)
  | getSignalInfo (r : InfoRequest)
  | getControlInfo (r : InfoRequest)
  | startBatch (r : BatchRequest)
  | stopBatch (r : BatchSession)
  | readSignal (r : ReadRequest)
  | writeControl (r : WriteRequest)
  | openSession (key : SessionKey)
  | closeSession (key : SessionKey)
  | restoreControl (key : SessionKey)
  | startProfile (r : ProfileRequest)
  | stopProfile (r : ProfileRequest)
  | getProfilePids (r : ProfileRequest)
  | popProfileRegionNames (r : ProfileRequest)
  | setGroupAccess (r : GroupAccessRequest)
  | setGroupAccessSignals (r : GroupAccessRequest)
  | setGroupAccessControls (r : GroupAccessRequest)
  | getAllAccess
  | getGroupAccess (r : GroupAccessRequest)

/-- The replies of the gRPC service. -/
inductive GrpcReply where
  | accessLists (signals controls : List String)
  | signalInfoList (list : List (String × SignalInfo))
  | controlInfoList (list : List (String × String × ℤ))
  | batchKey (key : BatchKey)
  | empty
  | sample (sample : Option ℚ)
  | sessionKey (key : SessionKey)
  | pidList (pids : Finset Pid)
  | nameList (names : List String)

/-- The methods of `GEOPMService`. -/
inductive DbusRequest where
  | getGroupAccess (group : String)
  | setGroupAccess (group : String) (signals controls : List String)
  | setGroupAccessSignals (group : String) (signals : List String)
  | setGroupAccessControls (group : String) (controls : List String)
  | getUserAccess
  | getAllAccess
  | getSignalInfo (names : List String)
  | getControlInfo (names : List String)
  | lockControl
  | unlockControl
  | openSession
  | closeSession
  | closeSessionAdmin (client : Pid)
  | startBatch (signalConfig controlConfig : List Request)
  | stopBatch (server : Pid)
  | readSignal (name : String) (domain domainIdx : ℤ)
  | writeControl (name : String) (domain domainIdx : ℤ) (setting : ℚ)
  | restoreControl
  | startProfile (profileName : String)
  | stopProfile (regionNames : List String)
  | getProfilePids (profileName : String)
  | popProfileRegionNames (profileName : String)

/-- A field that is absent reads as its default. -/
def PlatformRequest.get (r : Option PlatformRequest) : PlatformRequest := r.getD ⟨"", 0, 0⟩

/-- The element of a batch configuration. -/
def PlatformRequest.toRequest (r : PlatformRequest) : Request := (r.domain, r.domainIdx, r.name)

/-- The PID in a batch key. -/
def BatchKey.pid (key : Option BatchKey) : ℤ := (key.map BatchKey.batchPid).getD 0

/-! ### The sender of a request -/

/-- The sender of a request, as the D-Bus daemon (`GetConnectionUnixProcessID` and
`GetConnectionUnixUser`) and the credentials of the socket report it. -/
structure Peer where
  pid : Pid
  uid : ℕ

/-- The report is true: the process exists and runs as that user. -/
def Peer.Truthful (peer : Peer) (w : World) : Prop :=
  ∃ pi, w.procs.lookup peer.pid = some pi ∧ pi.uid = peer.uid

namespace GeopmdProxy

def sessionKey (peer : Peer) : SessionKey := ⟨s!"{peer.uid},{peer.pid}"⟩

/-- The request that is passed on. -/
def forward (peer : Peer) : GrpcRequest → GrpcRequest
  | .getUserAccess _ => .getUserAccess (sessionKey peer)
  | .getSignalInfo r => .getSignalInfo { r with sessionKey := some (sessionKey peer) }
  | .getControlInfo r => .getControlInfo { r with sessionKey := some (sessionKey peer) }
  | .startBatch r => .startBatch { r with sessionKey := some (sessionKey peer) }
  | .stopBatch r => .stopBatch { r with sessionKey := some (sessionKey peer) }
  | .readSignal r => .readSignal { r with sessionKey := some (sessionKey peer) }
  | .writeControl r => .writeControl { r with sessionKey := some (sessionKey peer) }
  | .openSession _ => .openSession (sessionKey peer)
  | .closeSession _ => .closeSession (sessionKey peer)
  | .restoreControl _ => .restoreControl (sessionKey peer)
  | .startProfile r => .startProfile { r with sessionKey := some (sessionKey peer) }
  | .stopProfile r => .stopProfile { r with sessionKey := some (sessionKey peer) }
  | .getProfilePids r => .getProfilePids { r with sessionKey := some (sessionKey peer) }
  | .popProfileRegionNames r =>
    .popProfileRegionNames { r with sessionKey := some (sessionKey peer) }
  | .setGroupAccess r => .setGroupAccess { r with sessionKey := some (sessionKey peer) }
  | .setGroupAccessSignals r =>
    .setGroupAccessSignals { r with sessionKey := some (sessionKey peer) }
  | .setGroupAccessControls r =>
    .setGroupAccessControls { r with sessionKey := some (sessionKey peer) }
  | .getAllAccess => .getAllAccess
  | .getGroupAccess r => .getGroupAccess { r with sessionKey := some (sessionKey peer) }

end GeopmdProxy

/-! ### The gRPC door -/

/-- `str.split` at one character. -/
def pySplit (sep : Char) (s : String) : List String := (s.toList.splitOn sep).map String.ofList

namespace GEOPMServiceProxy

/-- `GEOPMServiceProxy._get_client_id`, of the `name` of a session key. -/
def getClientId (key : Option SessionKey) : Py Pid :=
  match (pySplit ',' ((key.map SessionKey.name).getD ""))[1]? with
  | none => throw (.indexError "list index out of range")
  | some pidStr =>
    match pyInt? pidStr with
    | none => throw (.valueError s!"invalid literal for int() with base 10: '{pidStr}'")
    | some p => return p

/-- `GEOPMServiceProxy._get_user`. -/
def getUser (client : Pid) : Py String := do
  let uid ← statUid client
  getpwuid uid

/-- The call of `PlatformService` that a request makes. -/
def call : GrpcRequest → Py Call
  | .getUserAccess key => do
    let client ← getClientId (some key)
    let user ← getUser client
    return .getUserAccess user client
  | .getSignalInfo r => return .getSignalInfo r.names
  | .getControlInfo r => return .getControlInfo r.names
  | .startBatch r => do
    let client ← getClientId r.sessionKey
    return .startBatch client (r.signalConfig.map PlatformRequest.toRequest)
      (r.controlConfig.map PlatformRequest.toRequest)
  | .stopBatch r => do
    let client ← getClientId r.sessionKey
    return .stopBatch client (BatchKey.pid r.batchKey)
  | .readSignal r => do
    let client ← getClientId r.sessionKey
    let request := PlatformRequest.get r.request
    return .readSignal client request.name request.domain request.domainIdx
  | .writeControl r => do
    let client ← getClientId r.sessionKey
    let request := PlatformRequest.get r.request
    return .writeControl client request.name request.domain request.domainIdx r.setting
  | .openSession key => do
    let client ← getClientId (some key)
    let user ← getUser client
    return .openSession user client
  | .closeSession key => do
    let client ← getClientId (some key)
    return .closeSession client client
  | .restoreControl key => do
    let client ← getClientId (some key)
    return .restoreControl client
  | .startProfile r => do
    let client ← getClientId r.sessionKey
    let user ← getUser client
    return .startProfile user client r.profileName
  | .stopProfile r => do
    let client ← getClientId r.sessionKey
    return .stopProfile client r.regionNames
  | .getProfilePids r => do
    let client ← getClientId r.sessionKey
    -- the name of the user is passed where the PID belongs
    let user ← getUser client
    return .getProfilePids (.str user) r.profileName
  | .popProfileRegionNames r => do
    let client ← getClientId r.sessionKey
    let user ← getUser client
    return .popProfileRegionNames (.str user) r.profileName
  | .setGroupAccess r => do
    let client ← getClientId r.sessionKey
    return .setGroupAccess r.group r.allowedSignals r.allowedControls client
  | .setGroupAccessSignals r => do
    let client ← getClientId r.sessionKey
    return .setGroupAccessSignals r.group r.allowedSignals client
  | .setGroupAccessControls r => do
    let client ← getClientId r.sessionKey
    return .setGroupAccessControls r.group r.allowedControls client
  | .getAllAccess => return .getAllAccess
  | .getGroupAccess r => do
    let client ← getClientId r.sessionKey
    return .getGroupAccess r.group client

/-- The reply to a request, with the result of the call. -/
def reply : GrpcRequest → Value → GrpcReply
  | .openSession key, _ => .sessionKey key
  | _, .access signals controls => .accessLists signals controls
  | _, .signalInfo infos => .signalInfoList infos
  | _, .controlInfo infos => .controlInfoList infos
  | _, .batch server key => .batchKey ⟨server, key⟩
  | _, .signal value => .sample value
  | _, .pids pids => .pidList pids
  | _, .names names => .nameList names
  | _, _ => .empty

/-- A request is served. -/
def serve (r : GrpcRequest) : Py GrpcReply := do
  let c ← call r
  let value ← c.run
  return reply r value

end GEOPMServiceProxy

/-! ### The D-Bus door -/

namespace GEOPMService

/-- `GEOPMService._get_pid`. -/
def getPid (peer : Peer) : Py Pid := return peer.pid

/-- `GEOPMService._get_user`. -/
def getUser (peer : Peer) : Py String := getpwuid peer.uid

/-- The call of `PlatformService` that a request makes. -/
def call (peer : Peer) : DbusRequest → Py Call
  | .getGroupAccess group => return .getGroupAccess group (← getPid peer)
  | .setGroupAccess group signals controls =>
    return .setGroupAccess group signals controls (← getPid peer)
  | .setGroupAccessSignals group signals =>
    return .setGroupAccessSignals group signals (← getPid peer)
  | .setGroupAccessControls group controls =>
    return .setGroupAccessControls group controls (← getPid peer)
  | .getUserAccess => do
    let user ← getUser peer
    return .getUserAccess user (← getPid peer)
  | .getAllAccess => return .getAllAccess
  | .getSignalInfo names => return .getSignalInfo names
  | .getControlInfo names => return .getControlInfo names
  | .lockControl => return .lockControl (← getPid peer)
  | .unlockControl => return .unlockControl (← getPid peer)
  | .openSession => do
    let user ← getUser peer
    return .openSession user (← getPid peer)
  | .closeSession => do
    let pid ← getPid peer
    return .closeSession pid pid
  | .closeSessionAdmin client => return .closeSessionAdmin client (← getPid peer)
  | .startBatch signalConfig controlConfig =>
    return .startBatch (← getPid peer) signalConfig controlConfig
  | .stopBatch server => return .stopBatch (← getPid peer) server
  | .readSignal name domain domainIdx => return .readSignal (← getPid peer) name domain domainIdx
  | .writeControl name domain domainIdx setting =>
    return .writeControl (← getPid peer) name domain domainIdx setting
  | .restoreControl => return .restoreControl (← getPid peer)
  | .startProfile profileName => do
    let user ← getUser peer
    return .startProfile user (← getPid peer) profileName
  | .stopProfile regionNames => return .stopProfile (← getPid peer) regionNames
  | .getProfilePids profileName => return .getProfilePids (.pid (← getPid peer)) profileName
  | .popProfileRegionNames profileName =>
    return .popProfileRegionNames (.pid (← getPid peer)) profileName

/-- A request is served. -/
def serve (peer : Peer) (r : DbusRequest) : Py Value := do
  let c ← call peer r
  c.run

end GEOPMService

/-- The method of `GEOPMService` that corresponds to a request, with the same arguments. -/
def GrpcRequest.dbus : GrpcRequest → DbusRequest
  | .getUserAccess _ => .getUserAccess
  | .getSignalInfo r => .getSignalInfo r.names
  | .getControlInfo r => .getControlInfo r.names
  | .startBatch r => .startBatch (r.signalConfig.map PlatformRequest.toRequest)
      (r.controlConfig.map PlatformRequest.toRequest)
  | .stopBatch r => .stopBatch (BatchKey.pid r.batchKey)
  | .readSignal r =>
    let request := PlatformRequest.get r.request
    .readSignal request.name request.domain request.domainIdx
  | .writeControl r =>
    let request := PlatformRequest.get r.request
    .writeControl request.name request.domain request.domainIdx r.setting
  | .openSession _ => .openSession
  | .closeSession _ => .closeSession
  | .restoreControl _ => .restoreControl
  | .startProfile r => .startProfile r.profileName
  | .stopProfile r => .stopProfile r.regionNames
  | .getProfilePids r => .getProfilePids r.profileName
  | .popProfileRegionNames r => .popProfileRegionNames r.profileName
  | .setGroupAccess r => .setGroupAccess r.group r.allowedSignals r.allowedControls
  | .setGroupAccessSignals r => .setGroupAccessSignals r.group r.allowedSignals
  | .setGroupAccessControls r => .setGroupAccessControls r.group r.allowedControls
  | .getAllAccess => .getAllAccess
  | .getGroupAccess r => .getGroupAccess r.group

/-! ### The two doors compared -/

/-- The PIDs a call acts for, or whose permissions it checks; the session that an administrator
closes is neither. -/
def Call.actors : Call → List PidArg
  | .getGroupAccess _ client => [client]
  | .setGroupAccess _ _ _ client => [client]
  | .setGroupAccessSignals _ _ client => [client]
  | .setGroupAccessControls _ _ client => [client]
  | .getUserAccess _ client => [client]
  | .lockControl client => [client]
  | .unlockControl client => [client]
  | .openSession _ client => [client]
  | .closeSession client request => [client, request]
  | .closeSessionAdmin _ request => [request]
  | .startBatch client _ _ => [client]
  | .stopBatch client _ => [client]
  | .readSignal client _ _ _ => [client]
  | .writeControl client _ _ _ _ => [client]
  | .restoreControl client => [client]
  | .startProfile _ client _ => [client]
  | .stopProfile client _ => [client]
  | .getProfilePids client _ => [client]
  | .popProfileRegionNames client _ => [client]
  | .checkClient client => [client]
  | _ => []

/-- The call that is made, if one is, acts for nobody but the sender. -/
def ActsFor (w : World) (peer : Peer) (call : Py Call) : Prop :=
  wp call (fun c _ => ∀ actor ∈ c.actors, actor = .pid peer.pid) (fun _ _ => True) w

/-- Through both doors a request of `peer` does the same, on behalf of its sender. -/
structure SameDoor (w : World) (peer : Peer) (r : GrpcRequest) : Prop where
  /-- The same call with the same arguments. -/
  call : GEOPMServiceProxy.call (GeopmdProxy.forward peer r) w = GEOPMService.call peer r.dbus w
  /-- The same result and the same state. -/
  serve : GEOPMServiceProxy.serve (GeopmdProxy.forward peer r) w =
    (GEOPMServiceProxy.reply (GeopmdProxy.forward peer r) <$> GEOPMService.serve peer r.dbus) w
  sender : ActsFor w peer (GEOPMServiceProxy.call (GeopmdProxy.forward peer r))

/-- The request is not one of the two for which the name of the user is passed as a PID. -/
def GrpcRequest.passesPid : GrpcRequest → Bool
  | .getProfilePids _ => false
  | .popProfileRegionNames _ => false
  | _ => true

section Doors

variable {w : World} {peer : Peer}

/-- The proxy passes the PID of the sender on. -/
theorem getClientId_sessionKey (peer : Peer) :
    GEOPMServiceProxy.getClientId (some (GeopmdProxy.sessionKey peer)) = pure peer.pid := by
  have hlist : (GeopmdProxy.sessionKey peer).name.toList =
      Nat.toDigits 10 peer.uid ++ ',' :: (toString peer.pid).toList := by
    simp [GeopmdProxy.sessionKey, Nat.toList_repr]
    rfl
  have hdigits : ∀ n, ',' ∉ Nat.toDigits 10 n := by
    intro n hmem
    have hdigit : ','.isDigit := Nat.isDigit_of_mem_toDigits (by decide) (by decide) hmem
    cases hdigit
  have hpid : ',' ∉ (toString peer.pid).toList := by
    rw [Int.toString_eq_repr, Int.repr_eq_if]
    split_ifs
    · rw [Nat.toList_repr]
      exact hdigits _
    · rw [String.toList_append, Nat.toList_repr]
      intro hmem
      rcases List.mem_append.mp hmem with h | h
      · simp at h
      · exact hdigits _ h
  have hsplit : pySplit ',' (GeopmdProxy.sessionKey peer).name =
      [String.ofList (Nat.toDigits 10 peer.uid), toString peer.pid] := by
    rw [pySplit, hlist, List.splitOn_append_cons_self_of_not_mem (hdigits _),
      List.splitOn_eq_singleton hpid]
    simp
  simp only [GEOPMServiceProxy.getClientId, Option.map_some, Option.getD_some, hsplit,
    List.getElem?_cons_succ, List.getElem?_cons_zero, pyInt?_toString]

theorem getUser_of_truthful (h : peer.Truthful w) :
    GEOPMServiceProxy.getUser peer.pid w = GEOPMService.getUser peer w := by
  obtain ⟨pi, hpi, huid⟩ := h
  have hstat : statUid peer.pid w = (pure peer.uid : Py ℕ) w := by
    simp [statUid, bind, EStateM.bind, get, getThe, MonadStateOf.get, EStateM.get, pure,
      EStateM.pure, hpi, huid]
  rw [GEOPMServiceProxy.getUser, bind_congr hstat, pure_bind]
  rfl

theorem call_of_passesPid (h : peer.Truthful w) {r : GrpcRequest} (hr : r.passesPid = true) :
    GEOPMServiceProxy.call (GeopmdProxy.forward peer r) w = GEOPMService.call peer r.dbus w := by
  have huser := getUser_of_truthful h
  cases r with
  | getProfilePids r => cases hr
  | popProfileRegionNames r => cases hr
  | getUserAccess key =>
    simp only [GeopmdProxy.forward, GEOPMServiceProxy.call, getClientId_sessionKey, pure_bind]
    exact bind_congr huser
  | openSession key =>
    simp only [GeopmdProxy.forward, GEOPMServiceProxy.call, getClientId_sessionKey, pure_bind]
    exact bind_congr huser
  | startProfile r =>
    simp only [GeopmdProxy.forward, GEOPMServiceProxy.call, getClientId_sessionKey, pure_bind]
    exact bind_congr huser
  | getSignalInfo r => rfl
  | getControlInfo r => rfl
  | getAllAccess => rfl
  | _ =>
    simp only [GeopmdProxy.forward, GEOPMServiceProxy.call, getClientId_sessionKey, pure_bind]
    rfl

theorem serve_of_call {r : GrpcRequest} {d : DbusRequest}
    (h : GEOPMServiceProxy.call r w = GEOPMService.call peer d w) :
    GEOPMServiceProxy.serve r w =
      (GEOPMServiceProxy.reply r <$> GEOPMService.serve peer d) w := by
  rw [GEOPMServiceProxy.serve, GEOPMService.serve, bind_congr h, map_bind]
  simp only [map_eq_pure_bind]

theorem dbus_actsFor (w : World) (peer : Peer) (d : DbusRequest) :
    ActsFor w peer (GEOPMService.call peer d) := by
  have huser : ∀ f : String → Py Call,
      (∀ user, wp (f user) (fun c _ => ∀ actor ∈ c.actors, actor = .pid peer.pid)
        (fun _ _ => True) w) →
      ActsFor w peer (do let user ← GEOPMService.getUser peer; f user) := by
    intro f hf
    refine wp_bind.mpr ?_
    exact wp_getpwuid.mpr ⟨fun user _ => hf user, fun _ => trivial⟩
  cases d with
  | getUserAccess => exact huser _ fun user => by simp [GEOPMService.getPid, Call.actors]
  | openSession => exact huser _ fun user => by simp [GEOPMService.getPid, Call.actors]
  | startProfile name => exact huser _ fun user => by simp [GEOPMService.getPid, Call.actors]
  | _ => simp [ActsFor, GEOPMService.call, GEOPMService.getPid, Call.actors]

theorem call_of_user {f : String → Call} {c : Call} (hf : ∀ user, f user ≠ c) :
    (do let user ← GEOPMServiceProxy.getUser peer.pid; return f user : Py Call) w ≠
      (pure c : Py Call) w := by
  intro heq
  have hwp : wp (do let user ← GEOPMServiceProxy.getUser peer.pid; return f user : Py Call)
      (fun c' _ => c' ≠ c) (fun _ _ => True) w := by
    rw [wp_bind, GEOPMServiceProxy.getUser, wp_bind]
    refine wp_statUid.mpr ⟨fun pi _ => ?_, fun _ => trivial⟩
    exact wp_getpwuid.mpr ⟨fun user _ => hf user, fun _ => trivial⟩
  exact (wp_congr heq).mp hwp rfl

end Doors

/-- The child of the small system asks. -/
def childPeer : Peer := ⟨11, 1⟩

end Geopm
