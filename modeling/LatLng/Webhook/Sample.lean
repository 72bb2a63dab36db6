import LatLng.Core.Sample
import LatLng.Webhook.Outbox

/-! A smallest instance for the dispatcher: a log that holds one job, and a serializer for the
records of its outcomes. -/

namespace LatLng.Webhook.Sample

open LatLng.Core Core.Sample Geofence Storage

def jobId : String := "jobjob:1"

def jobRecord : WebhookEnqueueRecord where
  jobId := jobId
  event :=
    { command := .set, detect := .inside, collection := "fleet", id := "truck"
      object := .string "idle", fields := ∅, timestampNs := 0, eventId := none
      jobId := some jobId, hook := some "gate", group := none, nearby := none }
  endpoint := "http://localhost"
  attemptsUsed := 0
  maxAttempts := 2
  nextAttemptAtMs := 0

def toJson : LogRecord → Except String (List UInt8)
  | .command .flushDb => .ok [6]
  | .webhookAck "jobjob:1" => .ok [8]
  | .webhookRetryScheduled "jobjob:1" 1 nextAttemptAtMs "refused" =>
    if nextAttemptAtMs < 256 then .ok [9, UInt8.ofNat nextAttemptAtMs]
    else .error "not a sample record"
  | .webhookDeadLetter "jobjob:1" 2 "refused" => .ok [10]
  | _ => .error "not a sample record"

def jsonRecord : List UInt8 → Option LogRecord
  | [6] => some (.command .flushDb)
  | [7] => some (.webhookEnqueue jobRecord)
  | [8] => some (.webhookAck "jobjob:1")
  | [9, nextAttemptAtMs] =>
    some (.webhookRetryScheduled "jobjob:1" 1 nextAttemptAtMs.toNat "refused")
  | [10] => some (.webhookDeadLetter "jobjob:1" 2 "refused")
  | _ => none

def jobLib : Lib := { sampleLib with codec := { codec with toJson, jsonRecord } }

theorem jobLib_lossless : jobLib.codec.Lossless := by
  intro record payload h
  change toJson record = .ok payload at h
  unfold toJson at h
  split at h
  · cases h
    rfl
  · cases h
    rfl
  next next =>
    split at h
    next hlt =>
      cases Except.ok.inj h
      have hread : (UInt8.ofNat next).toNat = next := UInt8.toNat_ofNat_of_lt' hlt
      exact congrArg (fun n => some (LogRecord.webhookRetryScheduled "jobjob:1" 1 n "refused"))
        hread
    · cases h
  · cases h
    rfl
  · cases h

def jobDb : Db where
  storage := { entries := [{ sequence := 1, timestampNs := 0, command := [7] }] }
  nextSequence := 1

def jobOutbox : Outbox where
  db := jobDb
  queue := (∅ : Queue).applyEnqueue 1 jobRecord
  lastAppliedSequence := 1
  nowMs := 0

theorem rebuild_jobDb : Outbox.rebuildWebhookQueueFromLog jobLib jobDb 0 = .ok jobOutbox := rfl

def quickConfig : OutboxConfig where
  concurrencyLimit := 8
  leaseMs := 100
  retryInitialBackoffMs := 1
  retryMaxBackoffMs := 1

/-! ### A database with a hook -/

def gateRecord : WebhookEnqueueRecord := { jobRecord with jobId := "jobjob:2" }

def hookLib : Lib :=
  { jobLib with
    codec := { jobLib.codec with
      toJson := fun record => match record with
        | .webhookEnqueue { jobId := "jobjob:2", .. } => .ok [11]
        | record => codec.toJson record
      jsonRecord := fun payload => match payload with
        | [11] => some (.webhookEnqueue gateRecord)
        | payload => codec.jsonRecord payload } }

def hookDb : Db where
  storage := {}
  collections := (∅ : Std.ExtTreeMap String VersionedCollection).insert "fleet" (.new "fleet")
  geofences := ({} : Registry).setHook "gate" "http://localhost"
    { collection := "fleet", query := .within (.hash "gate") {}, detect := [], commands := [] }

def hookOutbox : Outbox where
  db := hookDb
  queue := ∅
  lastAppliedSequence := 0
  nowMs := 0

theorem rebuild_hookDb : Outbox.rebuildWebhookQueueFromLog hookLib hookDb 0 = .ok hookOutbox := rfl

/-! ### A serializer for a hook and the jobs of two firings -/

def gate : GeofenceDef where
  collection := "fleet"
  query := .within (.hash "gate") {}
  detect := []
  commands := []

def setGate : Call := .request (.sethook "gate" "http://localhost" gate)

def setTruck : Call := .request (setIdle "fleet" "truck")

def firedRecord (jobId : String) : WebhookEnqueueRecord :=
  { jobRecord with jobId, maxAttempts := 9 }

def historyToJson : LogRecord → Except String (List UInt8)
  | .command (.setHook _ _ _) => .ok [0]
  | .webhookEnqueue { jobId := "jobjob:3", attemptsUsed := 0, maxAttempts := 9, .. } => .ok [11]
  | .webhookEnqueue { jobId := "jobjob:5", attemptsUsed := 0, maxAttempts := 9, .. } => .ok [12]
  | record => codec.toJson record

def historyRecord : List UInt8 → Option LogRecord
  | [0] => some (.command (.setHook "gate" "http://localhost" gate))
  | [11] => some (.webhookEnqueue (firedRecord "jobjob:3"))
  | [12] => some (.webhookEnqueue (firedRecord "jobjob:5"))
  | payload => codec.jsonRecord payload

def historyLib : Lib :=
  { sampleLib with
    codec := { codec with toJson := historyToJson, jsonRecord := historyRecord } }

theorem historyLib_keepsJobs : KeepsJobs historyLib := by
  have hcodec : ∀ {record payload}, codec.toJson record = .ok payload →
      decodeLogRecord historyLib payload = .ok record := by
    intro record payload h
    change Core.Sample.toJson record = .ok payload at h
    unfold Core.Sample.toJson at h
    split at h <;> cases h <;> rfl
  refine ⟨fun {record payload} houtcome h => ?_, fun {c payload record} h hdecode => ?_,
    fun {r payload record} h hdecode => ?_⟩
  · change historyToJson record = .ok payload at h
    unfold historyToJson at h
    split at h
    · exact houtcome.elim
    · exact houtcome.elim
    · exact houtcome.elim
    · exact hcodec h
  · change historyToJson (.command c) = .ok payload at h
    unfold historyToJson at h
    split at h
    · cases h
      cases hdecode
      exact ⟨_, rfl⟩
    · next hr => cases hr
    · next hr => cases hr
    · cases (hcodec h).symm.trans hdecode
      exact ⟨_, rfl⟩
  · change historyToJson (.webhookEnqueue r) = .ok payload at h
    unfold historyToJson at h
    split at h
    · next hr => cases hr
    · next hr =>
      cases hr
      cases h
      cases hdecode
      exact ⟨_, rfl, rfl, rfl, rfl⟩
    · next hr =>
      cases hr
      cases h
      cases hdecode
      exact ⟨_, rfl, rfl, rfl, rfl⟩
    · cases (hcodec h).symm.trans hdecode
      exact ⟨_, rfl, rfl, rfl, rfl⟩

end LatLng.Webhook.Sample
