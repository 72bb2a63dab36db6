import LatLng.Geo.F64

/-! JSON documents and edits by path. Objects are kept in key order, as the document
type of the source keeps them. -/

namespace LatLng.Geo

inductive GeoError where
  | unsupportedGeoJson
  | invalidGeohash
  | invalidQuadkey
  | invalidJsonPath
  | unresolvedReference
  | invalidGeometry (message : String)
  | invalidCoordinates (message : String)
deriving DecidableEq, Repr

inductive JsonNumber where
  | posInt (n : Nat)
  | negInt (n : Nat)
  | float (x : F64)
deriving DecidableEq, Repr

inductive Json where
  | null
  | bool (b : Bool)
  | number (n : JsonNumber)
  | str (s : String)
  | arr (items : List Json)
  | obj (members : List (String × Json))

namespace Json

def get (members : List (String × Json)) (key : String) : Option Json := members.lookup key

def insert (key : String) (value : Json) : List (String × Json) → List (String × Json)
  | [] => [(key, value)]
  | (k, v) :: rest =>
    if k = key then (k, value) :: rest
    else if key < k then (key, value) :: (k, v) :: rest
    else (k, v) :: insert key value rest

def remove (members : List (String × Json)) (key : String) : List (String × Json) :=
  members.filter fun member => member.1 ≠ key

end Json

/-- A decimal number that fits a 64-bit word, with an optional plus sign. -/
def parseUsize (text : String) : Option Nat :=
  let digits := match text.toList with
    | '+' :: rest => rest
    | chars => chars
  if digits = [] ∨ ¬ digits.all Char.isDigit then none
  else
    let n := digits.foldl (fun acc c => acc * 10 + (c.toNat - '0'.toNat)) 0
    if n < 2 ^ 64 then some n else none

def pathSegments (path : String) : List String :=
  ((((path.toList.dropWhile (· == '$')).dropWhile (· == '.')).splitOn '.').filter
    (· ≠ [])).map String.ofList

def getSegment (value : Json) (segment : String) : Option Json :=
  match value with
  | .obj members => Json.get members segment
  | .arr items => (parseUsize segment).bind fun index => items[index]?
  | _ => none

def getJsonPath (value : Json) (path : String) : Option Json :=
  if path = "" ∨ path = "." then some value else (pathSegments path).foldlM getSegment value

/-- The edit behind `set_json_path`. A missing member on the way is created as an empty
object; nothing is created before a failure, so a failed edit changes nothing. -/
def setSegments (target : Json) : List String → Json → Except GeoError Json
  | [], newValue => .ok newValue
  | segment :: rest, newValue =>
    match target with
    | .obj members => do
      let child ← setSegments ((Json.get members segment).getD (.obj [])) rest newValue
      .ok (.obj (Json.insert segment child members))
    | .arr items =>
      match parseUsize segment with
      | none => .error .invalidJsonPath
      | some index =>
        match items[index]? with
        | none => .error .invalidJsonPath
        | some item => do
          let item ← setSegments item rest newValue
          .ok (.arr (items.set index item))
    | _ => .error .invalidJsonPath

def setJsonPath (target : Json) (path : String) (newValue : Json) : Except GeoError Json :=
  setSegments target (pathSegments path) newValue

def deleteSegments (target : Json) : List String → Except GeoError (Json × Bool)
  | [] => .ok (target, false)
  | [segment] =>
    match target with
    | .obj members => .ok (.obj (Json.remove members segment), (Json.get members segment).isSome)
    | .arr items =>
      match parseUsize segment with
      | none => .error .invalidJsonPath
      | some index =>
        if items.length ≤ index then .ok (target, false)
        else .ok (.arr (items.eraseIdx index), true)
    | _ => .error .invalidJsonPath
  | segment :: rest =>
    match target with
    | .obj members =>
      match Json.get members segment with
      | none => .error .invalidJsonPath
      | some child => do
        let (child, removed) ← deleteSegments child rest
        .ok (.obj (Json.insert segment child members), removed)
    | .arr items =>
      match parseUsize segment with
      | none => .error .invalidJsonPath
      | some index =>
        match items[index]? with
        | none => .error .invalidJsonPath
        | some item => do
          let (item, removed) ← deleteSegments item rest
          .ok (.arr (items.set index item), removed)
    | _ => .error .invalidJsonPath

def deleteJsonPath (target : Json) (path : String) : Except GeoError (Json × Bool) :=
  deleteSegments target (pathSegments path)

end LatLng.Geo
