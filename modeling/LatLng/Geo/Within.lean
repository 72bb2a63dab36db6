import LatLng.Geo.Area
import LatLng.Geo.Positions

/-! The WITHIN predicate. It dispatches on the kinds of the two geometries and leaves the geometry
to the library, of which only the names of its operations are used here. -/

namespace LatLng.Geo

variable {lib : GeoLib} {areas : AreaLib lib}

inductive GeometryKind where
  | point
  | line
  | lineString
  | polygon
  | multiPoint
  | multiLineString
  | multiPolygon
  | geometryCollection
  | rect
  | triangle

structure Shapes (Geometry : Type) where
  kind : Geometry → GeometryKind
  toPolygon : Geometry → Geometry
  contains : Geometry → Geometry → Bool
  intersects : Geometry → Geometry → Bool
  samePoint : Geometry → Geometry → Bool

namespace Shapes

variable {Geometry : Type} (shapes : Shapes Geometry)

def areaContainsGeometry (area target : Geometry) : Bool :=
  match shapes.kind area with
  | .rect =>
    match shapes.kind target with
    | .point => shapes.contains area target
    | .rect => shapes.contains (shapes.toPolygon area) (shapes.toPolygon target)
    | _ => shapes.contains (shapes.toPolygon area) target
  | .polygon => shapes.contains area target
  | .multiPolygon =>
    match shapes.kind target with
    | .point | .line | .lineString | .polygon | .rect => shapes.contains area target
    | _ => shapes.intersects area target
  | .point =>
    match shapes.kind target with
    | .point => shapes.samePoint area target
    | _ => false
  | _ => shapes.contains area target

def asksToMeet (area target : Geometry) : Bool :=
  match shapes.kind area, shapes.kind target with
  | .multiPolygon, .multiPoint | .multiPolygon, .multiLineString | .multiPolygon, .multiPolygon
  | .multiPolygon, .geometryCollection | .multiPolygon, .triangle => true
  | _, _ => false

structure Means {P : Type} (points : Geometry → Set P) : Prop where
  contains : ∀ {a b}, shapes.contains a b = true → points b ⊆ points a
  toPolygon : ∀ {a}, shapes.kind a = .rect → points (shapes.toPolygon a) = points a
  samePoint : ∀ {a b}, shapes.samePoint a b = true → points a = points b

variable {shapes} {area target : Geometry}

theorem Means.inside {P : Type} {points : Geometry → Set P} (h : shapes.Means points)
    (hmeet : shapes.asksToMeet area target = false)
    (hwithin : shapes.areaContainsGeometry area target) : points target ⊆ points area := by
  unfold areaContainsGeometry at hwithin
  unfold asksToMeet at hmeet
  split at hwithin
  next harea =>
    rw [← h.toPolygon harea]
    split at hwithin
    · rw [h.toPolygon harea]
      exact h.contains hwithin
    next htarget =>
      rw [← h.toPolygon htarget]
      exact h.contains hwithin
    · exact h.contains hwithin
  · exact h.contains hwithin
  next harea =>
    cases htarget : shapes.kind target <;> simp only [harea, htarget] at hwithin hmeet <;>
      first | exact h.contains hwithin | cases hmeet
  · split at hwithin
    · exact (h.samePoint hwithin).ge
    · cases hwithin
  · exact h.contains hwithin

end Shapes

/-- What a circle and a sector cover. The other areas are the geometry they are turned into. -/
structure Round (P : Type) where
  circle : F64 → F64 → F64 → Set P
  sector : F64 → F64 → F64 → F64 → F64 → Set P

def Area.places {P : Type} (round : Round P) (points : lib.Geometry → Set P) (a : lib.Geometry) :
    Area → Set P
  | .circle lat lon meters => round.circle lat lon meters
  | .sector lat lon meters bearing1 bearing2 => round.sector lat lon meters bearing1 bearing2
  | _ => points a

namespace Yards

def shapes : Shapes (GeometryKind × List (F64 × F64)) where
  kind := Prod.fst
  toPolygon := fun g => (.polygon, g.2)
  contains := fun a b => b.2.all a.2.contains
  intersects := fun a b => b.2.any a.2.contains
  samePoint := fun a b => a.2 == b.2

def kindNamed : String → GeometryKind
  | "MultiPolygon" => .multiPolygon
  | "MultiPoint" => .multiPoint
  | _ => .polygon

def yardLib : GeoLib where
  RawGeometry := GeometryKind × List (F64 × F64)
  Geometry := GeometryKind × List (F64 × F64)
  parseGeoJson
    | .obj [("type", .str type), ("coordinates", tree)] => .ok (.geometry (kindNamed type,
      positions .blank ((coordinateDepth type).getD 0) tree))
    | _ => .error "not a sample document"
  convert := .ok
  boundingRect := fun _ => none
  pointGeometry := fun lat lon => (.point, [(lon, lat)])
  rectGeometry := fun _ => (.rect, [])
  midpoint := fun a _ => a
  ofInt := fun _ => F64.zero
  display := fun _ => ""

def place (lat lon : F64) : Json := .arr [.number (.float lon), .number (.float lat)]

def triangle (lon : F64) : Json :=
  .arr [.arr [place F64.zero lon, place F64.ninety lon, place F64.zero F64.ninety, place F64.zero lon]]

def document (type : String) (coordinates : Json) : Json :=
  .obj [("type", .str type), ("coordinates", coordinates)]

end Yards

end LatLng.Geo
