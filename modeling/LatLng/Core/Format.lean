import LatLng.Core.Record
import LatLng.Geofence.Format

/-! How the records of the command log are written as JSON documents. -/

namespace LatLng.Core

open Geo Geo.JsonFormat Geofence LatLng.Lib LatLng.Lib.Fields

variable (lib : GeoLib)

def fieldEntryFormat : JsonFormat FieldEntry :=
  (((required "name" text).pair <| required "value" (fieldValueFormat lib)).iso
    (fun (name, value) => { name, value }) (fun e => (e.name, e.value)) (fun _ => rfl)
    (fun _ => rfl)).struct true rfl

def setConditionFormat : JsonFormat SetCondition :=
  .enumeration
    (fun
      | .always => "Always"
      | .nx => "Nx"
      | .xx => "Xx")
    (fun
      | "Always" => some .always
      | "Nx" => some .nx
      | "Xx" => some .xx
      | _ => none)
    (fun a => by cases a <;> rfl)

def setRequestFormat : JsonFormat SetRequest :=
  ((keyFields.pair <| (required "object" (geoTypeFormat lib)).pair <|
    (required "fields" (fieldEntryFormat lib).list).pair <|
    (field "expire_seconds" optionalNat (some none)).pair <|
    required "condition" setConditionFormat).iso
      (fun ((collection, id), object, fields, expireSeconds, condition) =>
        { collection, id, object, fields, expireSeconds, condition })
      (fun r => ((r.collection, r.id), r.object, r.fields, r.expireSeconds, r.condition))
      (fun _ => rfl) (fun _ => rfl)).struct false rfl

def persistedSetFormat : JsonFormat PersistedSetRecord :=
  ((keyFields.pair <| (required "object" (geoTypeFormat lib)).pair <|
    (required "fields" (fieldEntryFormat lib).list).pair <|
    field "expires_at_ms" optionalNat (some none)).iso
      (fun ((collection, id), object, fields, expiresAtMs) =>
        { collection, id, object, fields, expiresAtMs })
      (fun r => ((r.collection, r.id), r.object, r.fields, r.expiresAtMs))
      (fun _ => rfl) (fun _ => rfl)).struct false rfl

def collectionFormat : JsonFormat String := (required "collection" text).struct false rfl

def nameFormat : JsonFormat String := (required "name" text).struct false rfl

def patternFormat : JsonFormat String := (required "pattern" text).struct false rfl

def renameFormat : JsonFormat (String × String) :=
  ((required "collection" text).pair <| required "new_name" text).struct false rfl

def fsetFormat : JsonFormat ((String × String) × List FieldEntry × Bool) :=
  (keyFields.pair <| (required "fields" (fieldEntryFormat lib).list).pair <|
    required "xx" bool).struct false rfl

def expireFormat : JsonFormat ((String × String) × Nat) :=
  (keyFields.pair <| required "seconds" nat).struct false rfl

def expireAtFormat : JsonFormat ((String × String) × Nat) :=
  (keyFields.pair <| required "expires_at_ms" nat).struct false rfl

def jsetFormat : JsonFormat ((String × String) × String × String × Bool) :=
  (keyFields.pair <| (required "path" text).pair <| (required "value" text).pair <|
    required "raw" bool).struct false rfl

def jdelFormat : JsonFormat ((String × String) × String) :=
  (keyFields.pair <| required "path" text).struct false rfl

def setHookFormat : JsonFormat (String × String × GeofenceDef) :=
  ((required "name" text).pair <| (required "endpoint" text).pair <|
    required "def" (geofenceDefFormat lib)).struct false rfl

def setChannelFormat : JsonFormat (String × GeofenceDef) :=
  ((required "name" text).pair <| required "def" (geofenceDefFormat lib)).struct false rfl

def commandFormat : JsonFormat Command :=
  .choice
    (fun
      | .set req => ("Set", (setRequestFormat lib).put req)
      | .del c id => ("Del", keyFormat.put (c, id))
      | .dropCollection c => ("DropCollection", collectionFormat.put c)
      | .rename c newName => ("Rename", renameFormat.put (c, newName))
      | .fset c id fields xx => ("Fset", (fsetFormat lib).put ((c, id), fields, xx))
      | .expire c id seconds => ("Expire", expireFormat.put ((c, id), seconds))
      | .persist c id => ("Persist", keyFormat.put (c, id))
      | .jset c id path value raw => ("Jset", jsetFormat.put ((c, id), path, value, raw))
      | .jdel c id path => ("Jdel", jdelFormat.put ((c, id), path))
      | .setHook name endpoint d => ("SetHook", (setHookFormat lib).put (name, endpoint, d))
      | .delHook name => ("DelHook", nameFormat.put name)
      | .pdelHook pattern => ("PDelHook", patternFormat.put pattern)
      | .setChannel name d => ("SetChannel", (setChannelFormat lib).put (name, d))
      | .delChannel name => ("DelChannel", nameFormat.put name)
      | .pdelChannel pattern => ("PDelChannel", patternFormat.put pattern)
      | .flushDb => ("FlushDb", none)
      | .setPersisted record => ("SetPersisted", (persistedSetFormat lib).put record)
      | .expireAt c id expiresAtMs => ("ExpireAt", expireAtFormat.put ((c, id), expiresAtMs))
      | .createCollection c => ("CreateCollection", collectionFormat.put c))
    (fun
      | "Set", some body => ((setRequestFormat lib).decode body).map .set
      | "Del", some body => (keyFormat.decode body).map fun k => .del k.1 k.2
      | "DropCollection", some body => (collectionFormat.decode body).map .dropCollection
      | "Rename", some body => (renameFormat.decode body).map fun r => .rename r.1 r.2
      | "Fset", some body => ((fsetFormat lib).decode body).map fun r =>
        .fset r.1.1 r.1.2 r.2.1 r.2.2
      | "Expire", some body => (expireFormat.decode body).map fun r => .expire r.1.1 r.1.2 r.2
      | "Persist", some body => (keyFormat.decode body).map fun k => .persist k.1 k.2
      | "Jset", some body => (jsetFormat.decode body).map fun r =>
        .jset r.1.1 r.1.2 r.2.1 r.2.2.1 r.2.2.2
      | "Jdel", some body => (jdelFormat.decode body).map fun r => .jdel r.1.1 r.1.2 r.2
      | "SetHook", some body => ((setHookFormat lib).decode body).map fun r =>
        .setHook r.1 r.2.1 r.2.2
      | "DelHook", some body => (nameFormat.decode body).map .delHook
      | "PDelHook", some body => (patternFormat.decode body).map .pdelHook
      | "SetChannel", some body => ((setChannelFormat lib).decode body).map fun r =>
        .setChannel r.1 r.2
      | "DelChannel", some body => (nameFormat.decode body).map .delChannel
      | "PDelChannel", some body => (patternFormat.decode body).map .pdelChannel
      | "FlushDb", none => some .flushDb
      | "SetPersisted", some body => ((persistedSetFormat lib).decode body).map .setPersisted
      | "ExpireAt", some body => (expireAtFormat.decode body).map fun r =>
        .expireAt r.1.1 r.1.2 r.2
      | "CreateCollection", some body => (collectionFormat.decode body).map .createCollection
      | _, _ => none)
    (fun command => by
      cases command with
      | flushDb => simp
      | _ =>
        refine Format.map_decode_encode _ (fun a b h => ?_) _
        simpa [Prod.ext_iff, and_assoc] using h)

def webhookEnqueueFormat : JsonFormat WebhookEnqueueRecord :=
  (((required "job_id" text).pair <| (required "event" (geofenceEventFormat lib)).pair <|
    (required "endpoint" text).pair <| (required "attempts_used" nat).pair <|
    (required "max_attempts" nat).pair <| required "next_attempt_at_ms" nat).iso
      (fun (jobId, event, endpoint, attemptsUsed, maxAttempts, nextAttemptAtMs) =>
        { jobId, event, endpoint, attemptsUsed, maxAttempts, nextAttemptAtMs })
      (fun r => (r.jobId, r.event, r.endpoint, r.attemptsUsed, r.maxAttempts, r.nextAttemptAtMs))
      (fun _ => rfl) (fun _ => rfl)).struct false rfl

def webhookAckFormat : JsonFormat String := (required "job_id" text).struct false rfl

def webhookRetryFormat : JsonFormat (String × Nat × Nat × String) :=
  ((required "job_id" text).pair <| (required "attempts_used" nat).pair <|
    (required "next_attempt_at_ms" nat).pair <| required "last_error" text).struct false rfl

def webhookDeadLetterFormat : JsonFormat (String × Nat × String) :=
  ((required "job_id" text).pair <| (required "attempts_used" nat).pair <|
    required "last_error" text).struct false rfl

def logRecordFormat : JsonFormat LogRecord :=
  .choice
    (fun
      | .command c => ("Command", (commandFormat lib).put c)
      | .webhookEnqueue r => ("WebhookEnqueue", (webhookEnqueueFormat lib).put r)
      | .webhookAck jobId => ("WebhookAck", webhookAckFormat.put jobId)
      | .webhookRetryScheduled jobId attemptsUsed nextAttemptAtMs lastError =>
        ("WebhookRetryScheduled",
          webhookRetryFormat.put (jobId, attemptsUsed, nextAttemptAtMs, lastError))
      | .webhookDeadLetter jobId attemptsUsed lastError =>
        ("WebhookDeadLetter", webhookDeadLetterFormat.put (jobId, attemptsUsed, lastError)))
    (fun
      | "Command", some body => ((commandFormat lib).decode body).map .command
      | "WebhookEnqueue", some body => ((webhookEnqueueFormat lib).decode body).map .webhookEnqueue
      | "WebhookAck", some body => (webhookAckFormat.decode body).map .webhookAck
      | "WebhookRetryScheduled", some body => (webhookRetryFormat.decode body).map fun r =>
        .webhookRetryScheduled r.1 r.2.1 r.2.2.1 r.2.2.2
      | "WebhookDeadLetter", some body => (webhookDeadLetterFormat.decode body).map fun r =>
        .webhookDeadLetter r.1 r.2.1 r.2.2
      | _, _ => none)
    (fun a => by
      cases a <;> refine Format.map_decode_encode _ (fun a b h => ?_) _ <;>
        simpa [Prod.ext_iff, and_assoc] using h)

theorem commandFormat_decode_record (record : LogRecord) :
    (commandFormat lib).decode ((logRecordFormat lib).encode record) = none := by
  cases record <;> rfl

end LatLng.Core
