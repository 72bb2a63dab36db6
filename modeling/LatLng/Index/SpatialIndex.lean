import LatLng.Geo.GeoType
import LatLng.Lib.TreeMap

/-! The spatial index of a collection, and the search options a geofence carries. The
R-tree library is modelled by the list of the entries it holds. -/

namespace LatLng.Index

open Geo

inductive IndexError where
  | geo (error : GeoError)
  | regex (message : String)
  | unsupportedClip
  | invalidExpression (message : String)
deriving DecidableEq, Repr

inductive SortOrder where
  | asc
  | desc
deriving DecidableEq, Repr

inductive OutputFormat where
  | objects
  | points
  | bounds
  | hashes (precision : UInt8)
  | ids
  | count
deriving DecidableEq, Repr

inductive WhereComparison where
  | range (min max : F64)
  | equalsText (value : String)
  | regex (pattern : String)
deriving DecidableEq, Repr

structure WhereFilter where
  field : String
  comparison : WhereComparison
deriving DecidableEq, Repr

structure WhereInFilter where
  field : String
  values : List String
deriving DecidableEq, Repr

structure SearchOptions where
  cursor : Nat := 0
  limit : Nat := 100
  nofields : Bool := false
  includeCount : Bool := true
  matchPattern : Option String := none
  sort : SortOrder := .asc
  whereFilters : List WhereFilter := []
  whereInFilters : List WhereInFilter := []
  whereExprFilters : List String := []
  clip : Bool := false
  output : OutputFormat := .objects
deriving DecidableEq, Repr

structure IndexedEntry where
  id : String
  envelope : Rect
  center : F64 × F64
deriving DecidableEq, Repr

variable (lib : GeoLib)

def lower (a b : F64) : F64 := if a.lt b then a else b

def upper (a b : F64) : F64 := if b.lt a then a else b

def IndexedEntry.new (id : String) (bounds : BoundingBox) : IndexedEntry where
  id := id
  envelope :=
    { minX := lower bounds.minLon bounds.maxLon
      minY := lower bounds.minLat bounds.maxLat
      maxX := upper bounds.minLon bounds.maxLon
      maxY := upper bounds.minLat bounds.maxLat }
  center := ((bounds.center lib).2, (bounds.center lib).1)

def IndexedEntry.sameAs (a b : IndexedEntry) : Bool :=
  a.id == b.id && a.envelope.minX.numEq b.envelope.minX && a.envelope.minY.numEq b.envelope.minY &&
    a.envelope.maxX.numEq b.envelope.maxX && a.envelope.maxY.numEq b.envelope.maxY &&
    a.center.1.numEq b.center.1 && a.center.2.numEq b.center.2

structure SpatialIndex where
  tree : List IndexedEntry
  entriesById : Std.ExtTreeMap String IndexedEntry

namespace SpatialIndex

def new : SpatialIndex := ⟨[], ∅⟩

def remove (index : SpatialIndex) (id : String) : SpatialIndex :=
  match index.entriesById[id]? with
  | none => index
  | some entry =>
    { tree := index.tree.eraseP entry.sameAs
      entriesById := index.entriesById.erase id }

def insert (index : SpatialIndex) (id : String) (geo : GeoType) :
    Except IndexError SpatialIndex :=
  match geo.envelope lib with
  | .error e => .error (.geo e)
  | .ok none => .ok index
  | .ok (some bounds) =>
    let entry := IndexedEntry.new lib id bounds
    let index := index.remove id
    .ok { tree := entry :: index.tree, entriesById := index.entriesById.insert id entry }

variable {lib}

theorem insert_isOk {index : SpatialIndex} {id : String} {geo : GeoType} :
    (index.insert lib id geo).isOk = geo.indexable lib := by
  rw [insert, GeoType.indexable]
  rcases geo.envelope lib with e | _ | bounds <;> rfl

end SpatialIndex

end LatLng.Index
