import LatLng.Core.Admin

/-! A smallest instance of the third-party parameters: no geometry is ever parsed, floats are
not computed with, and the serializer knows only a handful of records. -/

namespace LatLng.Core.Sample

open Geo Geofence Storage

def idle (collection id : String) : LogRecord :=
  .command (.setPersisted
    { collection, id, object := .string "idle", fields := [], expiresAtMs := none })

def lost (collection id : String) : LogRecord :=
  .command (.setPersisted
    { collection, id, object := .hash "!", fields := [], expiresAtMs := none })

def toJson : LogRecord → Except String (List UInt8)
  | .command (.createCollection "fleet") => .ok [1]
  | .command (.createCollection "yard") => .ok [2]
  | .command (.setPersisted ⟨"fleet", "truck", .string "idle", [], none⟩) => .ok [3]
  | .command (.setPersisted ⟨"yard", "crane", .string "idle", [], none⟩) => .ok [4]
  | .command (.setPersisted ⟨"fleet", "truck", .hash "!", [], none⟩) => .ok [5]
  | .command .flushDb => .ok [6]
  | _ => .error "not a sample record"

def jsonRecord : List UInt8 → Option LogRecord
  | [1] => some (.command (.createCollection "fleet"))
  | [2] => some (.command (.createCollection "yard"))
  | [3] => some (idle "fleet" "truck")
  | [4] => some (idle "yard" "crane")
  | [5] => some (lost "fleet" "truck")
  | [6] => some (.command .flushDb)
  | _ => none

def codec : Codec where
  toJson := toJson
  jsonRecord := jsonRecord
  bincodeRecord := fun _ => none
  jsonCommand := fun _ => none
  bincodeCommand := fun _ => .error "not a sample record"

theorem sample_lossless : codec.Lossless := by
  intro record payload h
  change toJson record = .ok payload at h
  unfold toJson at h
  split at h <;> cases h <;> rfl

theorem sample_free : codec.PrefixFree := by
  -- every payload is a single byte
  have hone : ∀ record payload, toJson record = .ok payload → payload.length = 1 := by
    intro record payload h
    unfold toJson at h
    split at h <;> cases h <;> rfl
  intro record record' payload payload' h h' hbegins
  exact hbegins.eq_of_length ((hone record payload h).trans (hone record' payload' h').symm)

def sampleLib : Lib where
  toGeoLib := .blank
  globMatch := fun pattern text => pattern == text
  haversineDistanceMeters := fun _ _ _ _ => F64.zero
  containsGeo := fun _ _ => .ok false
  intersectsGeo := fun _ _ => .ok false
  intersectsSegment := fun _ _ _ => .ok false
  matchesCandidate := fun _ _ => .ok true
  validateOptions := fun _ => .ok ()
  codec := codec
  parseJson := fun _ => none
  opaqueWebhookId := fun kind seed => kind ++ seed

def blankLib : Lib := { sampleLib with codec := { codec with toJson := fun _ => .ok [] } }

def touching : AreaLib blankLib.toGeoLib where
  float := .blank
  circleEnvelope := fun lat lon _ => ⟨lat, lon, lat, lon⟩
  polygon := fun _ => ()
  tileBox := fun _ _ _ => ⟨F64.zero, F64.zero, F64.zero, F64.zero⟩
  areaContainsGeometry := fun _ _ => false
  intersects := fun _ _ => true

def sampleCtx : Ctx where
  nowMs := 1000
  nowNs := 0
  order := id
  order_perm := fun _ => List.Perm.refl _

def setIdle (collection id : String) : Request :=
  .set { collection, id, object := .string "idle", fields := [], expireSeconds := none
         condition := .always }

def setLost (collection id : String) : Request :=
  .set { collection, id, object := .hash "!", fields := [], expireSeconds := none
         condition := .always }

def fleetAndYard : Db where
  storage := {}
  collections := ((∅ : Std.ExtTreeMap String VersionedCollection).insert "fleet"
    (.new "fleet")).insert "yard" (.new "yard")

end LatLng.Core.Sample
