import LatLng.Geo.Json

/-! Stored geometries, fields and query areas, with the checks made on new writes and the
envelope used for indexing. The GeoJSON parser, the geometry library and float arithmetic
are third-party and collected in `GeoLib`. -/

namespace LatLng.Geo

structure Rect where
  minX : F64
  minY : F64
  maxX : F64
  maxY : F64
deriving DecidableEq, Repr

/-- What the GeoJSON parser returns, over its own raw geometries. -/
inductive GeoJson (RawGeometry : Type) where
  | geometry (g : RawGeometry)
  | feature (g : Option RawGeometry)
  | featureCollection

structure GeoLib where
  RawGeometry : Type
  Geometry : Type
  parseGeoJson : Json → Except String (GeoJson RawGeometry)
  convert : RawGeometry → Except String Geometry
  boundingRect : Geometry → Option Rect
  pointGeometry : F64 → F64 → Geometry
  /-- The constructor puts the two corners in order itself. -/
  rectGeometry : Rect → Geometry
  /-- `(a + b) / 2.0` -/
  midpoint : F64 → F64 → F64
  ofInt : Int → F64
  display : F64 → String

/-- Nothing is parsed or computed. -/
def GeoLib.blank : GeoLib where
  RawGeometry := Unit
  Geometry := Unit
  parseGeoJson := fun _ => .error "no parser"
  convert := fun _ => .ok ()
  boundingRect := fun _ => none
  pointGeometry := fun _ _ => ()
  rectGeometry := fun _ => ()
  midpoint := fun a _ => a
  ofInt := fun _ => F64.zero
  display := fun _ => ""

structure BoundingBox where
  minLat : F64
  minLon : F64
  maxLat : F64
  maxLon : F64
deriving DecidableEq, Repr

inductive FieldValue where
  | number (value : F64)
  | text (value : String)
  | json (value : String)
deriving DecidableEq, Repr

abbrev FieldMap := Std.ExtTreeMap String FieldValue

inductive GeoType where
  | point (lat lon : F64) (z : Option F64)
  | bounds (bounds : BoundingBox)
  | hash (value : String)
  | geoJson (value : Json)
  | string (value : String)

structure Object where
  id : String
  geo : GeoType
  fields : FieldMap
  expiresAt : Option Nat

inductive Area where
  | circle (lat lon meters : F64)
  | bounds (bounds : BoundingBox)
  | hash (value : String)
  | geoJson (value : Json)
  | tile (x y z : Nat)
  | quadkey (value : String)
  | sector (lat lon meters bearing1 bearing2 : F64)
  | reference (collection id : String)

variable (lib : GeoLib)

def validateLatLon (lat lon : F64) : Except GeoError Unit :=
  if !lat.isFinite || !(F64.minusNinety.le lat && lat.le F64.ninety) then
    .error (.invalidCoordinates s!"latitude {lib.display lat} is outside [-90, 90]")
  else if !lon.isFinite || !(F64.minusOneEighty.le lon && lon.le F64.oneEighty) then
    .error (.invalidCoordinates s!"longitude {lib.display lon} is outside [-180, 180]")
  else .ok ()

def validateMeters (meters : F64) : Except GeoError Unit :=
  if meters.isFinite && F64.zero.lt meters then .ok ()
  else .error (.invalidCoordinates
    s!"radius {lib.display meters} must be a positive number of meters")

def validateBearing (bearing : F64) : Except GeoError Unit :=
  if bearing.isFinite && F64.zero.le bearing && bearing.le F64.threeSixty then .ok ()
  else .error (.invalidCoordinates s!"bearing {lib.display bearing} is outside [0, 360]")

def JsonNumber.asF64 : JsonNumber → F64
  | .posInt n => lib.ofInt n
  | .negInt n => lib.ofInt (-n)
  | .float x => x

mutual

def validatePositionTree : Json → Except GeoError Unit
  | .arr (.number lon :: .number lat :: _) =>
    validateLatLon lib (lat.asF64 lib) (lon.asF64 lib)
  | .arr items => validatePositionTrees items
  | _ => .ok ()

def validatePositionTrees : List Json → Except GeoError Unit
  | [] => .ok ()
  | item :: items => do
    validatePositionTree item
    validatePositionTrees items

end

mutual

def validateGeojsonPositions : Json → Except GeoError Unit
  | .obj members => do
    match Json.get members "coordinates" with
    | some coordinates => validatePositionTree lib coordinates
    | none => .ok ()
    validateMember "geometry" members
    validateItems "features" members
    validateItems "geometries" members
  | _ => .ok ()

def validateMember (key : String) : List (String × Json) → Except GeoError Unit
  | [] => .ok ()
  | (k, value) :: members =>
    if k = key then validateGeojsonPositions value else validateMember key members

def validateItems (key : String) : List (String × Json) → Except GeoError Unit
  | [] => .ok ()
  | (k, .arr items) :: members =>
    if k = key then validateGeojsonAll items else validateItems key members
  | (k, _) :: members => if k = key then .ok () else validateItems key members

def validateGeojsonAll : List Json → Except GeoError Unit
  | [] => .ok ()
  | item :: items => do
    validateGeojsonPositions item
    validateGeojsonAll items

end

namespace BoundingBox

def validate (b : BoundingBox) : Except GeoError Unit := do
  validateLatLon lib b.minLat b.minLon
  validateLatLon lib b.maxLat b.maxLon
  if b.maxLat.lt b.minLat then
    .error (.invalidCoordinates
      s!"min_lat {lib.display b.minLat} is greater than max_lat {lib.display b.maxLat}")
  else if b.maxLon.lt b.minLon then
    .error (.invalidCoordinates
      s!"min_lon {lib.display b.minLon} is greater than max_lon {lib.display b.maxLon}; boxes crossing the antimeridian are not supported")
  else .ok ()

def new (minLat minLon maxLat maxLon : F64) : BoundingBox where
  minLat := minLat.min maxLat
  minLon := minLon.min maxLon
  maxLat := maxLat.max minLat
  maxLon := maxLon.max minLon

def fromPoint (lat lon : F64) : BoundingBox := new lat lon lat lon

def center (b : BoundingBox) : F64 × F64 :=
  (lib.midpoint b.minLat b.maxLat, lib.midpoint b.minLon b.maxLon)

def toRect (b : BoundingBox) : Rect where
  minX := b.minLon
  minY := b.minLat
  maxX := b.maxLon
  maxY := b.maxLat

end BoundingBox

def geohashAlphabet : List Char := "0123456789bcdefghjkmnpqrstuvwxyz".toList

structure GeohashCursor where
  latMin : F64 := F64.minusNinety
  latMax : F64 := F64.ninety
  lonMin : F64 := F64.minusOneEighty
  lonMax : F64 := F64.oneEighty
  even : Bool := true

def GeohashCursor.bit (c : GeohashCursor) (bit : Bool) : GeohashCursor :=
  if c.even then
    let mid := lib.midpoint c.lonMin c.lonMax
    if bit then { c with lonMin := mid, even := false } else { c with lonMax := mid, even := false }
  else
    let mid := lib.midpoint c.latMin c.latMax
    if bit then { c with latMin := mid, even := true } else { c with latMax := mid, even := true }

def decodeGeohashChars (cursor : GeohashCursor) : List Char → Except GeoError GeohashCursor
  | [] => .ok cursor
  | c :: chars =>
    match geohashAlphabet.findIdx? (· == c) with
    | none => .error .invalidGeohash
    | some index =>
      decodeGeohashChars ([4, 3, 2, 1, 0].foldl
        (fun cursor shift => cursor.bit lib (index / 2 ^ shift % 2 == 1)) cursor) chars

def decodeGeohashBbox (value : String) : Except GeoError BoundingBox := do
  let c ← decodeGeohashChars lib {} value.toList
  .ok (BoundingBox.new c.latMin c.lonMin c.latMax c.lonMax)

def geojsonValueToGeometry (value : Json) : Except GeoError lib.Geometry :=
  match lib.parseGeoJson value with
  | .error e => .error (.invalidGeometry e)
  | .ok (.geometry g) => (lib.convert g).mapError .invalidGeometry
  | .ok (.feature none) => .error .unsupportedGeoJson
  | .ok (.feature (some g)) => (lib.convert g).mapError .invalidGeometry
  | .ok .featureCollection => .error .unsupportedGeoJson

def boundingBoxFromGeojson (value : Json) : Except GeoError BoundingBox := do
  let geometry ← geojsonValueToGeometry lib value
  match lib.boundingRect geometry with
  | none => .error (.invalidGeometry "missing bounding rect")
  | some rect => .ok (BoundingBox.new rect.minY rect.minX rect.maxY rect.maxX)

namespace GeoType

def validate : GeoType → Except GeoError Unit
  | .point lat lon _ => validateLatLon lib lat lon
  | .bounds b => b.validate lib
  | .geoJson value => validateGeojsonPositions lib value
  | .hash _ => .ok ()
  | .string _ => .ok ()

def pointCoordinates : GeoType → Option (F64 × F64)
  | .point lat lon _ => some (lat, lon)
  | _ => none

def envelope : GeoType → Except GeoError (Option BoundingBox)
  | .point lat lon _ => .ok (some (BoundingBox.fromPoint lat lon))
  | .bounds b => .ok (some b)
  | .hash value => (decodeGeohashBbox lib value).map some
  | .geoJson value => (boundingBoxFromGeojson lib value).map some
  | .string _ => .ok none

def toGeometry : GeoType → Except GeoError (Option lib.Geometry)
  | .point lat lon _ => .ok (some (lib.pointGeometry lon lat))
  | .bounds b => .ok (some (lib.rectGeometry b.toRect))
  | .hash value => (decodeGeohashBbox lib value).map fun b => some (lib.rectGeometry b.toRect)
  | .geoJson value => (geojsonValueToGeometry lib value).map some
  | .string _ => .ok none

def indexable (g : GeoType) : Bool := (g.envelope lib).isOk

end GeoType

def Area.validate : Area → Except GeoError Unit
  | .circle lat lon meters => do
    validateLatLon lib lat lon
    validateMeters lib meters
  | .bounds b => b.validate lib
  | .geoJson value => validateGeojsonPositions lib value
  | .sector lat lon meters bearing1 bearing2 => do
    validateLatLon lib lat lon
    validateMeters lib meters
    validateBearing lib bearing1
    validateBearing lib bearing2
  | _ => .ok ()

end LatLng.Geo
