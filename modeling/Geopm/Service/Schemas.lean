import Geopm.Service.World

/-!
# `schemas.GEOPM_ACTIVE_SESSIONS_SCHEMA`

The part of JSON schema that the session files need, the schema they are checked against when the
service starts, and the JSON object written for a session.
-/

namespace Geopm

/-- The type of a property, with its `minimum`. -/
inductive PropSchema where
  | integer (minimum : Option ℤ)
  | number (minimum : Option ℤ)
  | string
  | strings

/-- A schema of type `object`. -/
structure ObjectSchema where
  properties : List (String × PropSchema)
  required : List String
  additionalProperties : Bool

/-- `value >= minimum`, when there is one. -/
def atLeast (minimum : Option ℤ) (n : ℤ) : Bool :=
  match minimum with
  | none => true
  | some m => decide (m ≤ n)

namespace Json

/-- The value is a string. -/
def isStr : Json → Bool
  | .str _ => true
  | _ => false

/-- A property value satisfies its schema. -/
def conforms : PropSchema → Json → Bool
  | .integer m, .int n => atLeast m n
  | .number m, .int n => atLeast m n
  | .number m, .float t => atLeast m t
  | .string, v => v.isStr
  | .strings, .arr xs => xs.all isStr
  | _, _ => false

/-- `jsonschema.validate` does not raise. -/
def validate (schema : ObjectSchema) : Json → Bool
  | .obj kvs =>
    schema.required.all (fun k => (kvs.lookup k).isSome) &&
      kvs.all fun kv => match schema.properties.lookup kv.1 with
        | some ps => conforms ps kv.2
        | none => schema.additionalProperties
  | _ => false

/-- `obj[key]` of an integer property. -/
def getInt (kvs : List (String × Json)) (key : String) : Option ℤ :=
  match kvs.lookup key with
  | some (.int n) => some n
  | _ => none

/-- `obj[key]` of a string property. -/
def getStr (kvs : List (String × Json)) (key : String) : Option String :=
  match kvs.lookup key with
  | some (.str s) => some s
  | _ => none

/-- `obj[key]` of a time. -/
def getTime (kvs : List (String × Json)) (key : String) : Option ℕ :=
  match kvs.lookup key with
  | some (.float t) => some t
  | some (.int n) => if 0 ≤ n then some n.toNat else none
  | _ => none

/-- The strings of an array. -/
def toStrs : List Json → Option (List String)
  | [] => some []
  | .str s :: xs => (toStrs xs).map (s :: ·)
  | _ :: _ => none

/-- `obj[key]` of an array of strings. -/
def getStrs (kvs : List (String × Json)) (key : String) : Option (List String) :=
  match kvs.lookup key with
  | some (.arr xs) => toStrs xs
  | _ => none

end Json

/-- `GEOPM_ACTIVE_SESSIONS_SCHEMA`. -/
def activeSessionsSchema : ObjectSchema where
  properties :=
    [("client_pid", .integer none),
     ("client_uid", .integer (some 0)),
     ("client_gid", .integer (some 0)),
     ("create_time", .number (some 0)),
     ("reference_count", .integer (some 0)),
     ("signals", .strings),
     ("controls", .strings),
     ("watch_id", .integer none),
     ("batch_server", .integer none),
     ("profile_name", .string)]
  required := ["client_pid", "client_uid", "client_gid", "create_time", "signals", "controls"]
  additionalProperties := false

namespace Session

/-- `json.dumps(sess)`: the optional keys are those present in the `dict`. -/
def toJson (s : Session) : Json :=
  .obj ([("client_pid", .int s.clientPid),
         ("client_uid", .int s.clientUid),
         ("client_gid", .int s.clientGid),
         ("create_time", .float s.createTime),
         ("reference_count", .int s.referenceCount),
         ("signals", .arr (s.signals.map .str)),
         ("controls", .arr (s.controls.map .str)),
         ("watch_id", .int s.watchId)] ++
        (s.batchServer.map fun b => ("batch_server", Json.int b)).toList ++
        (s.profileName.map fun n => ("profile_name", Json.str n)).toList)

/-- `dict(sess)` of a parsed file.  The schema does not require `reference_count` and `watch_id`,
but every file the service writes has them; an object without them is refused here. -/
def ofJson : Json → Option Session
  | .obj kvs => do
    let clientPid ← Json.getInt kvs "client_pid"
    let clientUid ← Json.getInt kvs "client_uid"
    let clientGid ← Json.getInt kvs "client_gid"
    let createTime ← Json.getTime kvs "create_time"
    let referenceCount ← Json.getInt kvs "reference_count"
    let signals ← Json.getStrs kvs "signals"
    let controls ← Json.getStrs kvs "controls"
    let watchId ← Json.getInt kvs "watch_id"
    return {
      clientPid := clientPid
      clientUid := clientUid.toNat
      clientGid := clientGid.toNat
      createTime := createTime
      referenceCount := referenceCount
      signals := signals
      controls := controls
      watchId := watchId
      batchServer := Json.getInt kvs "batch_server"
      profileName := Json.getStr kvs "profile_name" }
  | _ => none

@[simp] theorem toStrs_map_str (xs : List String) : Json.toStrs (xs.map .str) = some xs := by
  induction xs with
  | nil => rfl
  | cons x xs ih => simp [Json.toStrs, ih]

/-- Reading back the object written for a session gives the session. -/
@[simp] theorem ofJson_toJson (s : Session) : ofJson s.toJson = some s := by
  obtain ⟨pid, uid, gid, time, count, signals, controls, watch, batch, profile⟩ := s
  cases batch <;> cases profile <;>
    simp [toJson, ofJson, Json.getInt, Json.getTime, Json.getStrs, Json.getStr, List.lookup]

theorem toJson_injective {s t : Session} (h : s.toJson = t.toJson) : s = t :=
  Option.some.inj ((ofJson_toJson s).symm.trans ((congrArg ofJson h).trans (ofJson_toJson t)))

theorem validate_toJson (s : Session) :
    Json.validate activeSessionsSchema s.toJson = decide (0 ≤ s.referenceCount) := by
  have hstr : ∀ xs : List String, (xs.map Json.str).all Json.isStr = true := by
    intro xs; simp [Json.isStr]
  obtain ⟨pid, uid, gid, time, count, signals, controls, watch, batch, profile⟩ := s
  cases batch <;> cases profile <;>
    simp [toJson, Json.validate, activeSessionsSchema, List.lookup, Json.conforms, atLeast, hstr,
      Json.isStr]

end Session

end Geopm
