import LatLng.Geo.GeoType
import LatLng.Lib.Format

/-! How geometries and fields are written as JSON documents and read back. A number that is not
finite is written as null, and null is refused where a number is required. -/

namespace LatLng.Geo

open LatLng.Lib LatLng.Lib.Fields

instance : Document Json where
  null := .null
  text := .str
  array := .arr
  object := .obj
  shape
    | .null => .null
    | .str s => .text s
    | .arr items => .array items
    | .obj members => .object members
    | .bool _ => .other
    | .number _ => .other
  shape_null := rfl
  shape_text _ := rfl
  shape_array _ := rfl
  shape_object _ := rfl

def F64.Finite (x : F64) : Prop := x.isFinite = true

abbrev JsonFormat := Format Json F64.Finite

abbrev JsonFields := Fields Json F64.Finite

namespace JsonFormat

def text : JsonFormat String := Format.text

def bool : JsonFormat Bool where
  encode := .bool
  decode
    | .bool b => some b
    | _ => none
  atoms _ := []
  decode_encode b := by simp

def nat : JsonFormat Nat where
  encode n := .number (.posInt n)
  decode
    | .number (.posInt n) => some n
    | _ => none
  atoms _ := []
  decode_encode n := by simp

def byte : JsonFormat UInt8 where
  encode n := .number (.posInt n.toNat)
  decode
    | .number (.posInt n) => if n < 256 then some (UInt8.ofNat n) else none
    | _ => none
  atoms _ := []
  decode_encode n := by simp [n.toNat_lt]

def value : JsonFormat Json where
  encode := id
  decode := some
  atoms _ := []
  decode_encode n := by simp

abbrev required {α : Type} (name : String) (f : JsonFormat α) : JsonFields α := field name f none

variable (lib : GeoLib)

def f64 : JsonFormat F64 where
  encode x := if x.isFinite then .number (.float x) else .null
  decode
    | .number n => some (n.asF64 lib)
    | _ => none
  atoms x := [x]
  decode_encode x := by
    cases h : x.isFinite <;> simp [h, F64.Finite, JsonNumber.asF64]

def optionalF64 : JsonFormat (Option F64) :=
  (f64 lib).option fun x hx => by
    have hfinite : x.isFinite = true := hx x List.mem_cons_self
    have hnumber : (f64 lib).encode x = .number (.float x) := if_pos hfinite
    rw [hnumber]
    exact nofun

def optionalText : JsonFormat (Option String) := text.option nofun

def optionalNat : JsonFormat (Option Nat) := nat.option nofun

end JsonFormat

open JsonFormat

variable (lib : GeoLib)

def boundingBoxFormat : JsonFormat BoundingBox :=
  (((required "min_lat" (f64 lib)).pair <| (required "min_lon" (f64 lib)).pair <|
    (required "max_lat" (f64 lib)).pair <| required "max_lon" (f64 lib)).iso
      (fun (minLat, minLon, maxLat, maxLon) => { minLat, minLon, maxLat, maxLon })
      (fun b => (b.minLat, b.minLon, b.maxLat, b.maxLon)) (fun _ => rfl) (fun _ => rfl)).struct
    false rfl

def fieldValueFormat : JsonFormat FieldValue :=
  .adjacent "type" "value" (by decide)
    (fun
      | .number value => ("number", (f64 lib).put value)
      | .text value => ("text", text.put value)
      | .json value => ("json", text.put value))
    (fun
      | "number", body => ((f64 lib).decode body).map .number
      | "text", body => (text.decode body).map .text
      | "json", body => (text.decode body).map .json
      | _, _ => none)
    (fun a => by
      cases a <;> refine Format.map_decode_encode _ (fun a b h => ?_) _ <;>
        simpa [Prod.ext_iff, and_assoc] using h)

def pointFormat : JsonFormat (F64 × F64 × Option F64) :=
  ((required "lat" (f64 lib)).pair <| (required "lon" (f64 lib)).pair <|
    field "z" (optionalF64 lib) (some none)).struct false rfl

def geoTypeFormat : JsonFormat GeoType :=
  .choice
    (fun
      | .point lat lon z => ("Point", (pointFormat lib).put (lat, lon, z))
      | .bounds b => ("Bounds", (boundingBoxFormat lib).put b)
      | .hash value => ("Hash", text.put value)
      | .geoJson value => ("GeoJson", JsonFormat.value.put value)
      | .string value => ("String", text.put value))
    (fun
      | "Point", some body =>
        ((pointFormat lib).decode body).map fun p => .point p.1 p.2.1 p.2.2
      | "Bounds", some body => ((boundingBoxFormat lib).decode body).map .bounds
      | "Hash", some body => (text.decode body).map .hash
      | "GeoJson", some body => (JsonFormat.value.decode body).map .geoJson
      | "String", some body => (text.decode body).map .string
      | _, _ => none)
    (fun a => by
      cases a <;> refine Format.map_decode_encode _ (fun a b h => ?_) _ <;>
        simpa [Prod.ext_iff, and_assoc] using h)

def fieldMapFormat : JsonFormat FieldMap :=
  (required "values" (fieldValueFormat lib).treeMap).struct false rfl

def latLonMetersFields : JsonFields (F64 × F64 × F64) :=
  (required "lat" (f64 lib)).pair <| (required "lon" (f64 lib)).pair <|
    required "meters" (f64 lib)

def circleFormat : JsonFormat (F64 × F64 × F64) :=
  (latLonMetersFields lib).struct false rfl

def sectorFormat : JsonFormat ((F64 × F64 × F64) × F64 × F64) :=
  ((latLonMetersFields lib).pair <| (required "bearing1" (f64 lib)).pair <|
    required "bearing2" (f64 lib)).struct false rfl

def tileFormat : JsonFormat (Nat × Nat × Nat) :=
  ((required "x" nat).pair <| (required "y" nat).pair <| required "z" nat).struct false rfl

def keyFields : JsonFields (String × String) :=
  (required "collection" text).pair (required "id" text)

def keyFormat : JsonFormat (String × String) := keyFields.struct false rfl

def areaFormat : JsonFormat Area :=
  .choice
    (fun
      | .circle lat lon meters => ("Circle", (circleFormat lib).put (lat, lon, meters))
      | .bounds b => ("Bounds", (boundingBoxFormat lib).put b)
      | .hash value => ("Hash", text.put value)
      | .geoJson value => ("GeoJson", JsonFormat.value.put value)
      | .tile x y z => ("Tile", tileFormat.put (x, y, z))
      | .quadkey value => ("Quadkey", text.put value)
      | .sector lat lon meters bearing1 bearing2 =>
        ("Sector", (sectorFormat lib).put ((lat, lon, meters), bearing1, bearing2))
      | .reference collection id => ("Reference", keyFormat.put (collection, id)))
    (fun
      | "Circle", some body =>
        ((circleFormat lib).decode body).map fun c => .circle c.1 c.2.1 c.2.2
      | "Bounds", some body => ((boundingBoxFormat lib).decode body).map .bounds
      | "Hash", some body => (text.decode body).map .hash
      | "GeoJson", some body => (JsonFormat.value.decode body).map .geoJson
      | "Tile", some body => (tileFormat.decode body).map fun t => .tile t.1 t.2.1 t.2.2
      | "Quadkey", some body => (text.decode body).map .quadkey
      | "Sector", some body => ((sectorFormat lib).decode body).map fun s =>
        .sector s.1.1 s.1.2.1 s.1.2.2 s.2.1 s.2.2
      | "Reference", some body => (keyFormat.decode body).map fun k => .reference k.1 k.2
      | _, _ => none)
    (fun a => by
      cases a <;> refine Format.map_decode_encode _ (fun a b h => ?_) _ <;>
        simpa [Prod.ext_iff, and_assoc] using h)

end LatLng.Geo
