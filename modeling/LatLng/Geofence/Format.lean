import LatLng.Geo.Format
import LatLng.Geofence.Registry

/-! How search options, fence definitions and events are written as JSON documents. -/

namespace LatLng.Geofence

open Geo Geo.JsonFormat Index LatLng.Lib LatLng.Lib.Fields

/-! ### Search options -/

def sortOrderFormat : JsonFormat SortOrder :=
  .enumeration
    (fun
      | .asc => "Asc"
      | .desc => "Desc")
    (fun
      | "Asc" => some .asc
      | "Desc" => some .desc
      | _ => none)
    (fun a => by cases a <;> rfl)

def hashesFormat : JsonFormat UInt8 := (required "precision" byte).struct false rfl

def outputFormat : JsonFormat OutputFormat :=
  .choice
    (fun
      | .objects => ("Objects", none)
      | .points => ("Points", none)
      | .bounds => ("Bounds", none)
      | .hashes precision => ("Hashes", hashesFormat.put precision)
      | .ids => ("Ids", none)
      | .count => ("Count", none))
    (fun
      | "Objects", none => some .objects
      | "Points", none => some .points
      | "Bounds", none => some .bounds
      | "Hashes", some body => (hashesFormat.decode body).map .hashes
      | "Ids", none => some .ids
      | "Count", none => some .count
      | _, _ => none)
    (fun
      | .hashes _ => hashesFormat.map_decode_encode (fun _ _ h => OutputFormat.hashes.inj h) _
      | .objects | .points | .bounds | .ids | .count => by simp)

variable (lib : GeoLib)

def rangeFormat : JsonFormat (F64 × F64) :=
  ((required "min" (f64 lib)).pair <| required "max" (f64 lib)).struct false rfl

def whereComparisonFormat : JsonFormat WhereComparison :=
  .choice
    (fun
      | .range min max => ("Range", (rangeFormat lib).put (min, max))
      | .equalsText value => ("EqualsText", text.put value)
      | .regex pattern => ("Regex", text.put pattern))
    (fun
      | "Range", some body => ((rangeFormat lib).decode body).map fun r => .range r.1 r.2
      | "EqualsText", some body => (text.decode body).map .equalsText
      | "Regex", some body => (text.decode body).map .regex
      | _, _ => none)
    (fun a => by
      cases a <;> refine Format.map_decode_encode _ (fun a b h => ?_) _ <;>
        simpa [Prod.ext_iff, and_assoc] using h)

def whereFilterFormat : JsonFormat WhereFilter :=
  (((required "field" text).pair <| required "comparison" (whereComparisonFormat lib)).iso
    (fun (field, comparison) => { field, comparison }) (fun f => (f.field, f.comparison))
    (fun _ => rfl) (fun _ => rfl)).struct true rfl

def whereInFilterFormat : JsonFormat WhereInFilter :=
  (((required "field" text).pair <| required "values" text.list).iso
    (fun (field, values) => { field, values }) (fun f => (f.field, f.values))
    (fun _ => rfl) (fun _ => rfl)).struct true rfl

def whereExprFilterFormat : JsonFormat String :=
  (required "expression" text).struct true rfl

def searchOptionsFormat : JsonFormat SearchOptions :=
  let default : SearchOptions := {}
  (((field "cursor" nat (some default.cursor)).pair <|
    (field "limit" nat (some default.limit)).pair <|
    (field "nofields" bool (some default.nofields)).pair <|
    (field "include_count" bool (some default.includeCount)).pair <|
    (field "match_pattern" optionalText (some default.matchPattern)).pair <|
    (field "sort" sortOrderFormat (some default.sort)).pair <|
    (field "where_filters" (whereFilterFormat lib).list (some default.whereFilters)).pair <|
    (field "where_in_filters" whereInFilterFormat.list (some default.whereInFilters)).pair <|
    (field "where_expr_filters" whereExprFilterFormat.list (some default.whereExprFilters)).pair <|
    (field "clip" bool (some default.clip)).pair <|
    field "output" outputFormat (some default.output)).iso
      (fun (cursor, limit, nofields, includeCount, matchPattern, sort, whereFilters,
          whereInFilters, whereExprFilters, clip, output) =>
        { cursor, limit, nofields, includeCount, matchPattern, sort, whereFilters
          whereInFilters, whereExprFilters, clip, output })
      (fun o => (o.cursor, o.limit, o.nofields, o.includeCount, o.matchPattern, o.sort,
        o.whereFilters, o.whereInFilters, o.whereExprFilters, o.clip, o.output))
      (fun _ => rfl) (fun _ => rfl)).struct true rfl

/-! ### Definitions and events -/

def mutationCommandFormat : JsonFormat MutationCommand :=
  .enumeration
    (fun
      | .set => "Set"
      | .del => "Del"
      | .drop => "Drop"
      | .fset => "Fset")
    (fun
      | "Set" => some .set
      | "Del" => some .del
      | "Drop" => some .drop
      | "Fset" => some .fset
      | _ => none)
    (fun a => by cases a <;> rfl)

def detectTypeFormat : JsonFormat DetectType :=
  .enumeration
    (fun
      | .inside => "Inside"
      | .outside => "Outside"
      | .enter => "Enter"
      | .exit => "Exit"
      | .cross => "Cross"
      | .roam => "Roam")
    (fun
      | "Inside" => some .inside
      | "Outside" => some .outside
      | "Enter" => some .enter
      | "Exit" => some .exit
      | "Cross" => some .cross
      | "Roam" => some .roam
      | _ => none)
    (fun a => by cases a <;> rfl)

def nearbyFormat : JsonFormat ((F64 × F64 × F64) × SearchOptions) :=
  ((latLonMetersFields lib).pair <| required "options" (searchOptionsFormat lib)).struct false
    rfl

def areaQueryFormat : JsonFormat (Area × SearchOptions) :=
  ((required "area" (areaFormat lib)).pair <| required "options" (searchOptionsFormat lib)).struct
    false rfl

def roamFormat : JsonFormat (String × String × F64 × SearchOptions × Bool) :=
  ((required "target_collection" text).pair <| (required "target_pattern" text).pair <|
    (required "meters" (f64 lib)).pair <| (required "options" (searchOptionsFormat lib)).pair <|
    required "nodwell" bool).struct false rfl

def geofenceQueryFormat : JsonFormat GeofenceQuery :=
  .choice
    (fun
      | .nearby lat lon meters options =>
        ("Nearby", (nearbyFormat lib).put ((lat, lon, meters), options))
      | .within area options => ("Within", (areaQueryFormat lib).put (area, options))
      | .intersects area options => ("Intersects", (areaQueryFormat lib).put (area, options))
      | .roam targetCollection targetPattern meters options nodwell =>
        ("Roam", (roamFormat lib).put (targetCollection, targetPattern, meters, options, nodwell)))
    (fun
      | "Nearby", some body =>
        ((nearbyFormat lib).decode body).map fun q => .nearby q.1.1 q.1.2.1 q.1.2.2 q.2
      | "Within", some body => ((areaQueryFormat lib).decode body).map fun q => .within q.1 q.2
      | "Intersects", some body =>
        ((areaQueryFormat lib).decode body).map fun q => .intersects q.1 q.2
      | "Roam", some body => ((roamFormat lib).decode body).map fun q =>
        .roam q.1 q.2.1 q.2.2.1 q.2.2.2.1 q.2.2.2.2
      | _, _ => none)
    (fun a => by
      cases a <;> refine Format.map_decode_encode _ (fun a b h => ?_) _ <;>
        simpa [Prod.ext_iff, and_assoc] using h)

def geofenceDefFormat : JsonFormat GeofenceDef :=
  (((required "collection" text).pair <| (required "query" (geofenceQueryFormat lib)).pair <|
    (required "detect" detectTypeFormat.list).pair <|
    required "commands" mutationCommandFormat.list).iso
      (fun (collection, query, detect, commands) => { collection, query, detect, commands })
      (fun d => (d.collection, d.query, d.detect, d.commands)) (fun _ => rfl) (fun _ => rfl)).struct
    true rfl

def roamingInfoFormat : JsonFormat RoamingInfo :=
  ((keyFields.pair <| required "meters" (f64 lib)).iso
    (fun ((collection, id), meters) => { collection, id, meters })
    (fun r => ((r.collection, r.id), r.meters)) (fun _ => rfl) (fun _ => rfl)).struct
    false rfl

def optionalRoamingInfo : JsonFormat (Option RoamingInfo) :=
  (roamingInfoFormat lib).option nofun

def geofenceEventFormat : JsonFormat GeofenceEvent :=
  (((required "command" mutationCommandFormat).pair <|
    (required "detect" detectTypeFormat).pair <| (required "collection" text).pair <|
    (required "id" text).pair <| (required "object" (geoTypeFormat lib)).pair <|
    (required "fields" (fieldMapFormat lib)).pair <| (required "timestamp_ns" nat).pair <|
    (field "event_id" optionalText (some none)).pair <|
    (field "job_id" optionalText (some none)).pair <|
    (field "hook" optionalText (some none)).pair <|
    (field "group" optionalText (some none)).pair <|
    field "nearby" (optionalRoamingInfo lib) (some none)).iso
      (fun (command, detect, collection, id, object, fields, timestampNs, eventId, jobId, hook,
          group, nearby) =>
        { command, detect, collection, id, object, fields, timestampNs, eventId, jobId, hook
          group, nearby })
      (fun e => (e.command, e.detect, e.collection, e.id, e.object, e.fields, e.timestampNs,
        e.eventId, e.jobId, e.hook, e.group, e.nearby)) (fun _ => rfl) (fun _ => rfl)).struct
    false rfl

end LatLng.Geofence
