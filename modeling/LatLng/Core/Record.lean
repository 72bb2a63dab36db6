import LatLng.Core.Collection
import LatLng.Geo.Area
import LatLng.Index.Filters

/-! The records of the command log and their codec. -/

namespace LatLng.Core

open Geo Geofence Index

inductive SetCondition where
  | always
  | nx
  | xx
deriving DecidableEq, Repr

structure SetRequest where
  collection : String
  id : String
  object : GeoType
  fields : List FieldEntry
  expireSeconds : Option Nat
  condition : SetCondition

structure PersistedSetRecord where
  collection : String
  id : String
  object : GeoType
  fields : List FieldEntry
  expiresAtMs : Option Nat

inductive Command where
  | set (request : SetRequest)
  | del (collection id : String)
  | dropCollection (collection : String)
  | rename (collection newName : String)
  | fset (collection id : String) (fields : List FieldEntry) (xx : Bool)
  | expire (collection id : String) (seconds : Nat)
  | persist (collection id : String)
  | jset (collection id path value : String) (raw : Bool)
  | jdel (collection id path : String)
  | setHook (name endpoint : String) (d : GeofenceDef)
  | delHook (name : String)
  | pdelHook (pattern : String)
  | setChannel (name : String) (d : GeofenceDef)
  | delChannel (name : String)
  | pdelChannel (pattern : String)
  | flushDb
  | setPersisted (record : PersistedSetRecord)
  | expireAt (collection id : String) (expiresAtMs : Nat)
  | createCollection (collection : String)

structure WebhookEnqueueRecord where
  jobId : String
  event : GeofenceEvent
  endpoint : String
  attemptsUsed : Nat
  maxAttempts : Nat
  nextAttemptAtMs : Nat

inductive LogRecord where
  | command (command : Command)
  | webhookEnqueue (record : WebhookEnqueueRecord)
  | webhookAck (jobId : String)
  | webhookRetryScheduled (jobId : String) (attemptsUsed nextAttemptAtMs : Nat) (lastError : String)
  | webhookDeadLetter (jobId : String) (attemptsUsed : Nat) (lastError : String)

structure Codec where
  toJson : LogRecord → Except String (List UInt8)
  jsonRecord : List UInt8 → Option LogRecord
  bincodeRecord : List UInt8 → Option LogRecord
  jsonCommand : List UInt8 → Option Command
  bincodeCommand : List UInt8 → Except String Command

structure Lib extends FenceLib where
  codec : Codec
  parseJson : String → Option Json
  opaqueWebhookId : String → String → String

/-- The id of a job or an event, over the digest and its text form. -/
def opaqueWebhookId (md5 : List UInt8 → List UInt8) (base64 : List UInt8 → String)
    (kind seed : String) : String :=
  kind ++ "_" ++ base64 (md5 ("latlng-webhook-id-v1\x00" ++ kind ++ "\x00" ++ seed).toUTF8.toList)

/-- The parameters that are functions of the repository, at their models. -/
def Lib.instantiate (lib : Lib) (filters : FilterLib) (areas : AreaLib lib.toGeoLib)
    (md5 : List UInt8 → List UInt8) (base64 : List UInt8 → String) : Lib :=
  { lib with
    containsGeo := Area.containsGeo areas
    intersectsGeo := Area.intersectsGeo areas
    matchesCandidate := matchesCandidate filters
    validateOptions := SearchOptions.validate filters
    opaqueWebhookId := Core.opaqueWebhookId md5 base64 }

variable (lib : Lib)

def encodeLogRecord (record : LogRecord) : Except CoreError (List UInt8) :=
  (lib.codec.toJson record).mapError .codec

def decodeLogRecord (payload : List UInt8) : Except CoreError LogRecord :=
  match lib.codec.jsonRecord payload with
  | some record => .ok record
  | none =>
    match lib.codec.bincodeRecord payload with
    | some record => .ok record
    | none =>
      match lib.codec.jsonCommand payload with
      | some command => .ok (.command command)
      | none =>
        match lib.codec.bincodeCommand payload with
        | .ok command => .ok (.command command)
        | .error e => .error (.codec e)

/-- Every record can be written. -/
def Codec.Total (codec : Codec) : Prop := ∀ record, ∃ payload, codec.toJson record = .ok payload

def Codec.PrefixFree (codec : Codec) : Prop :=
  ∀ record record' payload payload', codec.toJson record = .ok payload →
    codec.toJson record' = .ok payload' → payload <+: payload' → payload = payload'

def Codec.Lossless (codec : Codec) : Prop :=
  ∀ record payload, codec.toJson record = .ok payload → codec.jsonRecord payload = some record

variable {lib}

theorem toJson_of_encode {record : LogRecord} {payload : List UInt8}
    (h : encodeLogRecord lib record = .ok payload) : lib.codec.toJson record = .ok payload := by
  rw [encodeLogRecord] at h
  cases hj : lib.codec.toJson record with
  | error e =>
    rw [hj] at h
    cases h
  | ok bytes =>
    rw [hj] at h
    cases h
    rfl

theorem decodeLogRecord_of_toJson (hcodec : lib.codec.Lossless) {record : LogRecord}
    {payload : List UInt8} (h : lib.codec.toJson record = .ok payload) :
    decodeLogRecord lib payload = .ok record := by
  rw [decodeLogRecord, hcodec record payload h]

variable (lib) in
def LogRecord.Readable (record : LogRecord) : Prop :=
  ∀ payload, lib.codec.toJson record = .ok payload → decodeLogRecord lib payload = .ok record

/-! ### Webhook ids -/

variable (lib)

def commandDebug : MutationCommand → String
  | .set => "Set"
  | .del => "Del"
  | .drop => "Drop"
  | .fset => "Fset"

def detectDebug : DetectType → String
  | .inside => "Inside"
  | .outside => "Outside"
  | .enter => "Enter"
  | .exit => "Exit"
  | .cross => "Cross"
  | .roam => "Roam"

def opaqueWebhookJobId (sequence : Nat) : String := lib.opaqueWebhookId "job" s!"job:{sequence}"

def opaqueWebhookEventId (commandSequence eventIndex : Nat) (event : GeofenceEvent) : String :=
  let hook := event.hook.getD ""
  let command := commandDebug event.command
  let detect := detectDebug event.detect
  lib.opaqueWebhookId "evt"
    s!"event:{commandSequence}:{eventIndex}:{event.collection}:{event.id}:{hook}:{command}:{detect}"

end LatLng.Core
