import LatLng.Core.Encodes
import LatLng.Core.Format
import LatLng.Core.Growth
import LatLng.Core.Sample

/-! Which records of the log are read back as they were written. -/

namespace LatLng.Core

open Geo Geofence Index Storage List

/-- The serializers are the derived ones. A record is written as the text of its document, a text
is read as its document, and the text of a record is not taken for one of the binary formats. -/
structure Codec.Derived (codec : Codec) (lib : GeoLib) (parse : List UInt8 → Option Json) :
    Prop where
  toJson : ∀ {record payload}, codec.toJson record = .ok payload →
    parse payload = some ((logRecordFormat lib).encode record)
  jsonRecord : ∀ payload,
    codec.jsonRecord payload = (parse payload).bind (logRecordFormat lib).decode
  jsonCommand : ∀ payload,
    codec.jsonCommand payload = (parse payload).bind (commandFormat lib).decode
  bincodeRecord : ∀ {record payload}, codec.toJson record = .ok payload →
    codec.bincodeRecord payload = none
  bincodeCommand : ∀ {record payload}, codec.toJson record = .ok payload →
    ∃ e, codec.bincodeCommand payload = .error e

variable {lib : Lib} {parse : List UInt8 → Option Json} {record : LogRecord}

theorem Codec.Derived.decode_eq_iff (h : lib.codec.Derived lib.toGeoLib parse)
    {record' : LogRecord} {payload : List UInt8} (hjson : lib.codec.toJson record = .ok payload)
    (hsame : (logRecordFormat lib.toGeoLib).encode record =
      (logRecordFormat lib.toGeoLib).encode record') :
    decodeLogRecord lib payload = .ok record' ↔
      ∀ x ∈ (logRecordFormat lib.toGeoLib).atoms record', x.Finite := by
  rw [← (logRecordFormat lib.toGeoLib).decode_encode]
  have hrecord := h.jsonRecord payload
  have hcommand := h.jsonCommand payload
  rw [h.toJson hjson, Option.bind_some] at hrecord hcommand
  rw [commandFormat_decode_record] at hcommand
  obtain ⟨e, he⟩ := h.bincodeCommand hjson
  rw [decodeLogRecord, hrecord, hsame]
  cases (logRecordFormat lib.toGeoLib).decode ((logRecordFormat lib.toGeoLib).encode record') with
  | none =>
    -- no other decoder takes the text
    rw [h.bincodeRecord hjson, hcommand, he]
    simp
  | some record'' => simp

theorem Codec.Derived.decode_iff (h : lib.codec.Derived lib.toGeoLib parse) {payload : List UInt8}
    (hjson : lib.codec.toJson record = .ok payload) :
    decodeLogRecord lib payload = .ok record ↔
      ∀ x ∈ (logRecordFormat lib.toGeoLib).atoms record, x.Finite :=
  h.decode_eq_iff hjson rfl

/-! ### Numbers that the checks let through -/

def GeoType.altitude : GeoType → List F64
  | .point _ _ z => z.toList
  | _ => []

def FieldEntry.numbers (entry : FieldEntry) : List F64 :=
  match entry.value with
  | .number value => [value]
  | _ => []

def rangeBounds (options : SearchOptions) : List F64 :=
  options.whereFilters.flatMap fun filter =>
    match filter.comparison with
    | .range min max => [min, max]
    | _ => []

def GeofenceDef.rangeBounds (d : GeofenceDef) : List F64 :=
  match d.query with
  | .nearby _ _ _ options => Core.rangeBounds options
  | .within _ options => Core.rangeBounds options
  | .intersects _ options => Core.rangeBounds options
  | .roam _ _ _ options _ => Core.rangeBounds options

def Command.unchecked : Command → List F64
  | .set req => GeoType.altitude req.object ++ req.fields.flatMap FieldEntry.numbers
  | .setPersisted record =>
    GeoType.altitude record.object ++ record.fields.flatMap FieldEntry.numbers
  | .fset _ _ fields _ => fields.flatMap FieldEntry.numbers
  | .setHook _ _ d => GeofenceDef.rangeBounds d
  | .setChannel _ d => GeofenceDef.rangeBounds d
  | _ => []

section Checks

variable {lib : GeoLib}

theorem finite_of_validateLatLon {lat lon : F64} (h : validateLatLon lib lat lon = .ok ()) :
    lat.Finite ∧ lon.Finite := by
  unfold validateLatLon at h
  split at h
  · cases h
  next hlat =>
    split at h
    · cases h
    next hlon =>
      simp only [Bool.or_eq_true, Bool.not_eq_true', not_or, Bool.not_eq_false] at hlat hlon
      exact ⟨hlat.1, hlon.1⟩

theorem finite_of_validateMeters {meters : F64} (h : validateMeters lib meters = .ok ()) :
    meters.Finite := by
  unfold validateMeters at h
  split at h
  next hmeters => exact (Bool.and_eq_true_iff.1 hmeters).1
  · cases h

theorem finite_of_validateBearing {bearing : F64} (h : validateBearing lib bearing = .ok ()) :
    bearing.Finite := by
  unfold validateBearing at h
  split at h
  next hbearing => exact (Bool.and_eq_true_iff.1 (Bool.and_eq_true_iff.1 hbearing).1).1
  · cases h

theorem exists_ok_of_bind {ε α β : Type} {x : Except ε α} {f : α → Except ε β} {b : β}
    (h : (x >>= f) = .ok b) : ∃ a, x = .ok a ∧ f a = .ok b := by
  cases x with
  | error e => cases h
  | ok a => exact ⟨a, rfl, h⟩

theorem finite_of_validate_bounds {b : BoundingBox} (h : b.validate lib = .ok ()) :
    ∀ x ∈ (boundingBoxFormat lib).atoms b, x.Finite := by
  obtain ⟨_, hmin, h⟩ := exists_ok_of_bind h
  obtain ⟨_, hmax, -⟩ := exists_ok_of_bind h
  obtain ⟨hminLat, hminLon⟩ := finite_of_validateLatLon hmin
  obtain ⟨hmaxLat, hmaxLon⟩ := finite_of_validateLatLon hmax
  show ∀ x ∈ [b.minLat, b.minLon, b.maxLat, b.maxLon], x.Finite
  simp [hminLat, hminLon, hmaxLat, hmaxLon]

theorem finite_of_validate_area {area : Area} (h : area.validate lib = .ok ()) :
    ∀ x ∈ (areaFormat lib).atoms area, x.Finite := by
  cases area with
  | circle lat lon meters =>
    obtain ⟨_, hpos, hmeters⟩ := exists_ok_of_bind h
    obtain ⟨hlat, hlon⟩ := finite_of_validateLatLon hpos
    show ∀ x ∈ [lat, lon, meters], x.Finite
    simp [hlat, hlon, finite_of_validateMeters hmeters]
  | bounds b => exact finite_of_validate_bounds h
  | sector lat lon meters bearing1 bearing2 =>
    obtain ⟨_, hpos, h⟩ := exists_ok_of_bind h
    obtain ⟨_, hmeters, h⟩ := exists_ok_of_bind h
    obtain ⟨_, hbearing1, hbearing2⟩ := exists_ok_of_bind h
    obtain ⟨hlat, hlon⟩ := finite_of_validateLatLon hpos
    show ∀ x ∈ [lat, lon, meters, bearing1, bearing2], x.Finite
    simp [hlat, hlon, finite_of_validateMeters hmeters, finite_of_validateBearing hbearing1,
      finite_of_validateBearing hbearing2]
  | _ => exact fun x hx => (nomatch hx)

theorem geoType_atoms_iff {geo : GeoType} (h : geo.validate lib = .ok ()) :
    (∀ x ∈ (geoTypeFormat lib).atoms geo, x.Finite) ↔ ∀ x ∈ GeoType.altitude geo, x.Finite := by
  cases geo with
  | point lat lon z =>
    obtain ⟨hlat, hlon⟩ := finite_of_validateLatLon h
    have hatoms : (geoTypeFormat lib).atoms (.point lat lon z) = [lat, lon] ++ z.toList := by
      cases z <;> rfl
    rw [hatoms, forall_mem_append, GeoType.altitude]
    simp [hlat, hlon]
  | bounds b => exact iff_of_true (finite_of_validate_bounds h) fun x hx => (nomatch hx)
  | hash value => exact Iff.rfl
  | geoJson value => exact Iff.rfl
  | string value => exact Iff.rfl

theorem fieldEntry_atoms (entry : FieldEntry) :
    (fieldEntryFormat lib).atoms entry = entry.numbers := by
  obtain ⟨name, value⟩ := entry
  cases value <;> rfl

theorem searchOptions_atoms (options : SearchOptions) :
    (searchOptionsFormat lib).atoms options = rangeBounds options := by
  have hfilter : (whereFilterFormat lib).atoms = fun filter : WhereFilter =>
      match filter.comparison with
      | .range min max => [min, max]
      | _ => [] := by
    funext filter
    obtain ⟨field, comparison⟩ := filter
    cases comparison <;> rfl
  have hin : ∀ filter, whereInFilterFormat.atoms filter = [] := by
    simp [whereInFilterFormat, JsonFormat.text]
  have hexpr : ∀ filter, whereExprFilterFormat.atoms filter = [] := fun _ => rfl
  have hpattern : JsonFormat.optionalText.atoms options.matchPattern = [] := by
    cases options.matchPattern <;> rfl
  have hout : outputFormat.atoms options.output = [] := by
    cases options.output <;> rfl
  simp [searchOptionsFormat, rangeBounds, hfilter, hin, hexpr, hpattern, hout, JsonFormat.nat,
    JsonFormat.bool, sortOrderFormat]

theorem geofenceDef_atoms (d : GeofenceDef) :
    (geofenceDefFormat lib).atoms d = (geofenceQueryFormat lib).atoms d.query := by
  simp [geofenceDefFormat, JsonFormat.text, detectTypeFormat, mutationCommandFormat]

end Checks

theorem ok_of_mapError {ε ε' α : Type} {x : Except ε α} {f : ε → ε'} {a : α}
    (h : x.mapError f = .ok a) : x = .ok a := by
  cases x with
  | error e => cases h
  | ok b =>
    cases h
    rfl

theorem geofenceDef_atoms_iff {d : GeofenceDef} (h : Db.validateGeofenceDef lib d = .ok ()) :
    (∀ x ∈ (geofenceDefFormat lib.toGeoLib).atoms d, x.Finite) ↔
      ∀ x ∈ GeofenceDef.rangeBounds d, x.Finite := by
  rw [geofenceDef_atoms, GeofenceDef.rangeBounds]
  obtain ⟨_, -, h⟩ := exists_ok_of_bind h
  cases hq : d.query with
  | nearby lat lon meters options =>
    rw [hq] at h
    obtain ⟨_, hpos, h⟩ := exists_ok_of_bind h
    obtain ⟨_, hmeters, -⟩ := exists_ok_of_bind h
    obtain ⟨hlat, hlon⟩ := finite_of_validateLatLon (ok_of_mapError hpos)
    have hatoms : (geofenceQueryFormat lib.toGeoLib).atoms (.nearby lat lon meters options) =
        [lat, lon, meters] ++ (searchOptionsFormat lib.toGeoLib).atoms options := rfl
    rw [hatoms, forall_mem_append, searchOptions_atoms]
    simp [hlat, hlon, finite_of_validateMeters (ok_of_mapError hmeters)]
  | within area options | intersects area options =>
    rw [hq] at h
    obtain ⟨_, harea, -⟩ := exists_ok_of_bind h
    show (∀ x ∈ (areaFormat lib.toGeoLib).atoms area ++
      (searchOptionsFormat lib.toGeoLib).atoms options, x.Finite) ↔ _
    rw [forall_mem_append, searchOptions_atoms]
    exact and_iff_right (finite_of_validate_area (ok_of_mapError harea))
  | roam targetCollection targetPattern meters options nodwell =>
    rw [hq] at h
    obtain ⟨_, hmeters, -⟩ := exists_ok_of_bind h
    have hatoms : (geofenceQueryFormat lib.toGeoLib).atoms
        (.roam targetCollection targetPattern meters options nodwell) =
        [meters] ++ ((searchOptionsFormat lib.toGeoLib).atoms options ++ []) := rfl
    rw [hatoms, append_nil, forall_mem_append, searchOptions_atoms]
    simp [finite_of_validateMeters (ok_of_mapError hmeters)]

theorem fieldEntries_atoms {lib : GeoLib} (fields : List FieldEntry) :
    (fieldEntryFormat lib).list.atoms fields = fields.flatMap FieldEntry.numbers := by
  rw [Lib.Format.atoms_list]
  congr 1
  funext entry
  exact fieldEntry_atoms entry

theorem Command.Checked.atoms_iff {c : Command} (h : c.Checked lib) :
    (∀ x ∈ (commandFormat lib.toGeoLib).atoms c, x.Finite) ↔ ∀ x ∈ c.unchecked, x.Finite := by
  cases c with
  | set req =>
    have hatoms : (commandFormat lib.toGeoLib).atoms (.set req) =
        (geoTypeFormat lib.toGeoLib).atoms req.object ++
          ((fieldEntryFormat lib.toGeoLib).list.atoms req.fields ++ []) := by
      obtain ⟨collection, id, object, fields, expireSeconds, condition⟩ := req
      cases expireSeconds <;> rfl
    rw [hatoms, append_nil, fieldEntries_atoms, unchecked, forall_mem_append,
      forall_mem_append, geoType_atoms_iff h]
  | setPersisted record =>
    have hatoms : (commandFormat lib.toGeoLib).atoms (.setPersisted record) =
        (geoTypeFormat lib.toGeoLib).atoms record.object ++
          ((fieldEntryFormat lib.toGeoLib).list.atoms record.fields ++ []) := by
      obtain ⟨collection, id, object, fields, expiresAtMs⟩ := record
      cases expiresAtMs <;> rfl
    rw [hatoms, append_nil, fieldEntries_atoms, unchecked, forall_mem_append,
      forall_mem_append, geoType_atoms_iff h]
  | fset c id fields xx =>
    have hatoms : (commandFormat lib.toGeoLib).atoms (.fset c id fields xx) =
        (fieldEntryFormat lib.toGeoLib).list.atoms fields ++ [] := rfl
    rw [hatoms, append_nil, fieldEntries_atoms, unchecked]
  | setHook name endpoint d => exact geofenceDef_atoms_iff h
  | setChannel name d => exact geofenceDef_atoms_iff h
  | _ => exact Iff.rfl

/-! ### The records that calls write -/

variable (lib) in
def LogRecord.numbers (record : LogRecord) : List F64 := (logRecordFormat lib.toGeoLib).atoms record

variable (lib) in
/-- The numbers of a new record that no check has looked at. A webhook job reports an object as it
is stored, so none of its numbers is looked at again. -/
def LogRecord.unchecked : LogRecord → List F64
  | .command c => c.unchecked
  | .webhookEnqueue r => (geofenceEventFormat lib.toGeoLib).atoms r.event
  | _ => []

variable (lib) in
def Call.unchecked (call : Call) (record : LogRecord) : List F64 :=
  match call with
  -- a compaction writes objects and definitions as they are stored
  | .aofshrink => record.numbers lib
  | .appendLogRecords _ => record.numbers lib
  | .rewriteLogSnapshot _ => record.numbers lib
  | _ => record.unchecked lib

theorem Batch.Fresh.mem_numbered {batch : Batch} (h : batch.Fresh lib) {sequences : List Nat}
    (hrecord : record ∈ batch.numbered lib sequences) :
    (∃ c, record = .command c ∧ c.Checked lib) ∨ ∃ r, record = .webhookEnqueue r := by
  cases batch with
  | records rs => exact .inl (h record hrecord)
  | command c webhooks =>
    rcases mem_cons.1 hrecord with rfl | hrecord
    · exact .inl ⟨c, rfl, h.1⟩
    · obtain ⟨k, hk, rfl⟩ := mem_mapIdx.1 hrecord
      exact .inr ⟨_, rfl⟩

theorem Batch.Fresh.numbers_iff {batch : Batch} (h : batch.Fresh lib) {sequences : List Nat}
    (hrecord : record ∈ batch.numbered lib sequences) :
    (∀ x ∈ record.numbers lib, x.Finite) ↔ ∀ x ∈ record.unchecked lib, x.Finite := by
  rcases h.mem_numbered hrecord with ⟨c, rfl, hc⟩ | ⟨r, rfl⟩
  · exact hc.atoms_iff
  · have hatoms : LogRecord.numbers lib (.webhookEnqueue r) =
        (geofenceEventFormat lib.toGeoLib).atoms r.event ++ [] := rfl
    rw [hatoms, append_nil, LogRecord.unchecked]

theorem Db.Writes.numbers_iff {db : Db} {ctx : Ctx} {call : Call}
    (h : db.Writes lib ctx call record) :
    (∀ x ∈ record.numbers lib, x.Finite) ↔ ∀ x ∈ call.unchecked lib record, x.Finite := by
  cases h with
  | @request request w sequences _ hplan hrecord =>
    have hfresh := request.plan_fresh lib db ctx
    rw [hplan] at hfresh
    exact Batch.Fresh.numbers_iff hfresh hrecord
  | @delete _ mid collection id w sequences _ hcall hplan hrecord =>
    have hfresh := @Db.delExclusive_fresh lib mid ctx collection id
    rw [hplan] at hfresh
    have hiff := Batch.Fresh.numbers_iff hfresh hrecord
    cases call with
    | pdel collection pattern => exact hiff
    | expireDue nowMs max => exact hiff
    | _ => cases hcall
  | _ => exact Iff.rfl

/-- What a call adds to the log are encoded records of the call, and such a record comes back
exactly if the numbers that no check has looked at are finite. -/
theorem log_record_round_trip_iff (hserde : lib.codec.Derived lib.toGeoLib parse) (db : Db)
    (ctx : Ctx) (call : Call) :
    db.Sourced lib ctx call (db.call lib ctx call).2 ∧
      ∀ record payload, db.Writes lib ctx call record →
        encodeLogRecord lib record = .ok payload →
        (decodeLogRecord lib payload = .ok record ↔
          ∀ x ∈ call.unchecked lib record, x.isFinite = true) := by
  refine ⟨Db.Sourced.of_call lib db ctx call, fun record payload hwrites hencode => ?_⟩
  exact (hserde.decode_iff (toJson_of_encode hencode)).trans hwrites.numbers_iff

/-! ### A field that is not a number -/

open Sample

def setSpeed (speed : F64) : Request :=
  .set { collection := "fleet", id := "truck", object := .string "idle"
         fields := [{ name := "speed", value := .number speed }], expireSeconds := none
         condition := .always }

def speedRecord (speed : F64) : LogRecord :=
  .command (.setPersisted
    { collection := "fleet", id := "truck", object := .string "idle"
      fields := [{ name := "speed", value := .number speed }], expiresAtMs := none })

def speedToJson : LogRecord → Except String (List UInt8)
  | .command (.setPersisted ⟨"fleet", "truck", .string "idle", [⟨"speed", .number speed⟩], none⟩) =>
    if speed = F64.ninety then .ok [0] else if speed = F64.nan then .ok [1]
    else .error "not a sample record"
  | _ => .error "not a sample record"

def speedDocument : List UInt8 → Option Json
  | [0] => some ((logRecordFormat sampleLib.toGeoLib).encode (speedRecord F64.ninety))
  | [1] => some ((logRecordFormat sampleLib.toGeoLib).encode (speedRecord F64.nan))
  | _ => none

def speedLib : Lib :=
  { sampleLib with
    codec :=
      { toJson := speedToJson
        jsonRecord := fun payload =>
          (speedDocument payload).bind (logRecordFormat sampleLib.toGeoLib).decode
        bincodeRecord := fun _ => none
        jsonCommand := fun payload =>
          (speedDocument payload).bind (commandFormat sampleLib.toGeoLib).decode
        bincodeCommand := fun _ => .error "not a sample record" } }

theorem speedLib_derived : speedLib.codec.Derived speedLib.toGeoLib speedDocument where
  toJson {record payload} h := by
    change speedToJson record = .ok payload at h
    unfold speedToJson at h
    split at h
    next speed =>
      split at h
      next hninety =>
        cases h
        rw [hninety]
        rfl
      · split at h
        next hnan =>
          cases h
          rw [hnan]
          rfl
        · cases h
    · cases h
  jsonRecord _ := rfl
  jsonCommand _ := rfl
  bincodeRecord _ := rfl
  bincodeCommand _ := ⟨_, rfl⟩

theorem speed_ninety_round_trip : decodeLogRecord speedLib [0] = .ok (speedRecord F64.ninety) := by
  have hwrites : Db.Writes speedLib { storage := {} } sampleCtx (.request (setSpeed F64.ninety))
      (speedRecord F64.ninety) :=
    @Db.Writes.request speedLib _ _ _ _ [1] _ rfl (mem_of_getElem? (i := 0) rfl)
  refine ((log_record_round_trip_iff speedLib_derived _ _ _).2 _ _ hwrites rfl).2 fun x hx => ?_
  change x ∈ [F64.ninety] at hx
  cases mem_singleton.1 hx
  rfl

/-- SET takes a field that is not a number and answers that it has stored the object. What it has
logged cannot be read, and the database does not start again. -/
theorem speed_nan_not_readable :
    let db : Db := { storage := {} }
    let call : Call := .request (setSpeed F64.nan)
    (db.call speedLib sampleCtx call).1 = .ok () ∧
      (db.call speedLib sampleCtx call).2.storage.entries =
        [{ sequence := 1, timestampNs := 0, command := [1] }] ∧
      encodeLogRecord speedLib (speedRecord F64.nan) = .ok [1] ∧
      (decodeLogRecord speedLib [1]).isOk = false ∧
      (build speedLib sampleCtx (db.call speedLib sampleCtx call).2.storage {}).1.isOk = false :=
  ⟨rfl, rfl, rfl, rfl, rfl⟩

end LatLng.Core
