import LatLng.Core.Commands
import LatLng.Index.Search

/-! The queries. SCAN and SEARCH narrow the objects through the field indexes, the spatial
queries through the spatial index; the filters decide on what is left. -/

namespace LatLng.Core

open Geo Index Std

/-- A call that does not return: the ordered map refuses a range that ends before it starts, and a
vector may ask for more than there is. -/
inductive Panic where
  | rangeStartAfterEnd
  | capacityOverflow
deriving DecidableEq

variable (q : QueryLib)

/-! ### Field indexes -/

def isTopLevelField (field : String) : Bool := field ≠ "z" && !field.toList.contains '.'

def parsesToZero (text : String) : Bool :=
  match q.parseF64 text with
  | some n => n.numEq F64.zero
  | none => false

/-- A missing field reads as 0 in filters but is absent from the field indexes, so filters that
can match 0 must fall back to a full evaluation. -/
def whereFilterMatchesZero (filter : WhereFilter) : Bool :=
  match filter.comparison with
  | .range min max => min.le F64.zero && F64.zero.le max
  | .equalsText expected => parsesToZero q expected
  | .regex _ => true

namespace FieldIndexes

variable (indexes : FieldIndexes)

/-- The ids listed from one number to another, in the order of the numbers. -/
def idsBetween (values : ExtTreeMap F64 (ExtTreeSet String) F64.totalCmp)
    (min max : F64) : List String :=
  (values.toList.filter fun entry =>
    (F64.totalCmp min entry.1).isLE && (F64.totalCmp entry.1 max).isLE).flatMap
      fun entry => entry.2.toList

def rangeIds (values : ExtTreeMap F64 (ExtTreeSet String) F64.totalCmp) (min max : F64) :
    Except Panic (List String) :=
  if !values.isEmpty && F64.totalCmp min max == .gt then .error .rangeStartAfterEnd
  else .ok (idsBetween values min max)

def textIds (field value : String) : ExtTreeSet String :=
  match indexes.text[field]? with
  | none => ∅
  | some values => values[value]?.getD ∅

/-- The ids a filter is looked up under, in the order in which they are visited; `none` if the
index cannot serve the filter. -/
def visitWhereFilterIds (filter : WhereFilter) : Except Panic (Option (List String)) :=
  if !isTopLevelField filter.field || whereFilterMatchesZero q filter then .ok none
  else match filter.comparison with
    | .range min max => match indexes.numeric[filter.field]? with
      | none => .ok (some [])
      | some values => (rangeIds values min max).map some
    | .equalsText expected => .ok (some (indexes.textIds filter.field expected).toList)
    | .regex _ => .ok none

def idsForWhereFilter (filter : WhereFilter) : Except Panic (Option (ExtTreeSet String)) :=
  if !isTopLevelField filter.field || whereFilterMatchesZero q filter then .ok none
  else match filter.comparison with
    | .range min max => match indexes.numeric[filter.field]? with
      | none => .ok none
      | some values => (rangeIds values min max).map fun ids => some (.ofList ids)
    | .equalsText expected => .ok (some (indexes.textIds filter.field expected))
    | .regex _ => .ok none

def numericIds (field : String) (number : F64) : ExtTreeSet String :=
  match indexes.numeric[field]? with
  | none => ∅
  | some values => values[number]?.getD ∅

/-- Every value of the list is looked up as a text and, if it reads as one, as a number. -/
def idsAmong (filter : WhereInFilter) : List String :=
  (filter.values.flatMap fun value => (indexes.textIds filter.field value).toList) ++
    filter.values.flatMap fun value =>
      match q.parseF64 value with
      | some number => (indexes.numericIds filter.field number).toList
      | none => []

def idsForWhereInFilter (filter : WhereInFilter) : Option (ExtTreeSet String) :=
  if !isTopLevelField filter.field || filter.values.any (parsesToZero q) then none
  else some (.ofList (indexes.idsAmong q filter))

def intersectSelected (selected : Option (ExtTreeSet String)) (ids : ExtTreeSet String) :
    Option (ExtTreeSet String) :=
  match selected with
  | some existing => some (existing.filter fun id => ids.contains id)
  | none => some ids

def selectWhere (selected : Option (ExtTreeSet String)) :
    List WhereFilter → Except Panic (Option (ExtTreeSet String))
  | [] => .ok selected
  | filter :: filters => do
    match ← indexes.idsForWhereFilter q filter with
    | none => selectWhere selected filters
    | some ids => selectWhere (intersectSelected selected ids) filters

def selectWhereIn (selected : Option (ExtTreeSet String)) :
    List WhereInFilter → Option (ExtTreeSet String)
  | [] => selected
  | filter :: filters =>
    match indexes.idsForWhereInFilter q filter with
    | none => selectWhereIn selected filters
    | some ids => selectWhereIn (intersectSelected selected ids) filters

/-- The ids that every filter the index can serve is listed under; `none` if it serves none. -/
def candidateIds (options : SearchOptions) : Except Panic (Option (List String)) := do
  let selected ← indexes.selectWhere q none options.whereFilters
  .ok ((indexes.selectWhereIn q selected options.whereInFilters).map fun ids => ids.toList)

def visitWhere : List WhereFilter → Except Panic (Option (List String))
  | [] => .ok none
  | filter :: filters => do
    match ← indexes.visitWhereFilterIds q filter with
    | none => visitWhere filters
    | some ids => .ok (some ids)

def visitCandidateIds (options : SearchOptions) : Except Panic (Option (List String)) := do
  match ← indexes.visitWhere q options.whereFilters with
  | some ids => .ok (some ids)
  | none => .ok (options.whereInFilters.findSome? fun filter =>
    (indexes.idsForWhereInFilter q filter).map fun ids => ids.toList)

end FieldIndexes

/-! ### SCAN and SEARCH -/

def isString : GeoType → Bool
  | .string _ => true
  | _ => false

namespace Collection

variable (c : Collection)

def visible (now : Nat) (stringOnly : Bool) (object : Object) : Bool :=
  !isExpired now object && (!stringOnly || isString object.geo)

def visibleObjects (now : Nat) (stringOnly : Bool) (ids : List String) : List Object :=
  (ids.filterMap fun id => c.objects[id]?).filter (visible now stringOnly)

/-- Visits ids until enough objects have matched. -/
def visitIds (now : Nat) (stringOnly : Bool) (options : SearchOptions) :
    Nat → List String → Except IndexError (List SearchItem)
  | 0, _ => .ok []
  | _, [] => .ok []
  | n + 1, id :: ids =>
    match c.objects[id]? with
    | none => visitIds now stringOnly options (n + 1) ids
    | some object =>
      if !visible now stringOnly object then visitIds now stringOnly options (n + 1) ids
      else do
        if ← matchesCandidate q.toFilterLib object options then
          let items ← visitIds now stringOnly options n ids
          .ok (idItem (bare object) :: items)
        else visitIds now stringOnly options (n + 1) ids

/-- The fast path, once it has its vector for the page (`reserve`). -/
def fastIndexedResults (now : Nat) (options : SearchOptions) (stringOnly : Bool) :
    Except Panic (Except IndexError (Option SearchResults)) :=
  if !options.fastLimitedIds then .ok (.ok none)
  else do
    match ← c.fieldIndexes.visitCandidateIds q options with
    | none => .ok (.ok none)
    | some ids => .ok ((c.visitIds q now stringOnly options (pageLimit options) ids).map
      fun items => some (idResults items))

def scanCandidates (ctx : Ctx) (options : SearchOptions) (stringOnly : Bool) :
    Except Panic (List SearchCandidate) := do
  let ids := (← c.fieldIndexes.candidateIds q options).getD (ctx.order c.objects.keys)
  .ok ((c.visibleObjects ctx.nowMs stringOnly ids).map bare)

def scan (lib : GeoLib) (ctx : Ctx) (options : SearchOptions) (stringOnly : Bool) :
    Except Panic (Except IndexError SearchResults) := do
  match ← c.fastIndexedResults q ctx.nowMs options stringOnly with
  | .error e => .ok (.error e)
  | .ok (some results) => .ok (.ok results)
  | .ok none =>
    let candidates ← c.scanCandidates q ctx options stringOnly
    .ok (applySearchOptions lib q options candidates none false)

/-- Both functions of the fast path start with a vector for a whole page, however few objects there
are. `room` is the number of items up to which the host grants one. -/
def reserve (room : Nat) (options : SearchOptions) : Except Panic Unit :=
  if options.fastLimitedIds && room < pageLimit options then .error .capacityOverflow else .ok ()

def scanReserving (room : Nat) (lib : GeoLib) (ctx : Ctx) (options : SearchOptions)
    (stringOnly : Bool) : Except Panic (Except IndexError SearchResults) := do
  reserve room options
  c.scan q lib ctx options stringOnly

end Collection

variable (lib : Lib)

namespace Db

variable (db : Db) (ctx : Ctx)

/-- The checks that come before the scan of a collection. -/
def scanChecked (collection : String) (options : SearchOptions)
    (scan : Collection → Except Panic (Except IndexError SearchResults)) :
    Except Panic (Except CoreError SearchResults) :=
  match options.validate q.toFilterLib with
  | .error e => .ok (.error (.index e))
  | .ok () => match db.existingCollectionHandle collection with
    | .error e => .ok (.error e)
    | .ok cell => (scan cell.collection).map fun answer => answer.mapError .index

def scanObjects (collection : String) (options : SearchOptions) (stringOnly : Bool) :
    Except Panic (Except CoreError SearchResults) :=
  db.scanChecked q collection options fun c => c.scan q lib.toGeoLib ctx options stringOnly

def scan (collection : String) (options : SearchOptions) :
    Except Panic (Except CoreError SearchResults) :=
  db.scanObjects q lib ctx collection options false

def search (collection : String) (options : SearchOptions) :
    Except Panic (Except CoreError SearchResults) :=
  db.scanObjects q lib ctx collection options true

def scanObjectsReserving (room : Nat) (collection : String) (options : SearchOptions)
    (stringOnly : Bool) : Except Panic (Except CoreError SearchResults) :=
  db.scanChecked q collection options fun c =>
    c.scanReserving q room lib.toGeoLib ctx options stringOnly

/-! ### Spatial queries -/

def getLiveObject (collection id : String) : Option Object :=
  (db.getObject collection id).filter fun object => !isExpired ctx.nowMs object

/-- A reference area stands for the geometry of a stored object, whatever its collection. -/
def resolveArea : Area → Except CoreError Area
  | .reference collection id =>
    match db.getLiveObject ctx collection id with
    | none => .error (.objectNotFound collection id)
    | some object => match q.toGeojsonValue object.geo with
      | .error e => .error (.geo e)
      | .ok value => .ok (.geoJson value)
  | area => .ok area

end Db

namespace Collection

variable (c : Collection) (ctx : Ctx)

/-- The fast path of the spatial queries, once it has its vector for the page; the predicate is asked
before the deadline. -/
def fastIdsFromSpatialVisit (now : Nat) (matching : Object → Except CoreError Bool) :
    Nat → List String → Except CoreError (List SearchItem)
  | 0, _ => .ok []
  | _, [] => .ok []
  | n + 1, id :: ids =>
    match c.objects[id]? with
    | none => fastIdsFromSpatialVisit now matching (n + 1) ids
    | some object => do
      let matched ← matching object
      if isExpired now object || !matched then fastIdsFromSpatialVisit now matching (n + 1) ids
      else
        let items ← fastIdsFromSpatialVisit now matching n ids
        .ok (idItem (bare object) :: items)

def spatialFast (options : SearchOptions) : Bool := options.fastLimitedIds && !options.hasFilters

def nearby (lib : GeoLib) (lat lon meters : F64) (options : SearchOptions) :
    Except CoreError SearchResults :=
  let ids := c.spatialIndex.nearbyIds q lat lon meters
  if spatialFast options then
    (c.fastIdsFromSpatialVisit ctx.nowMs (fun _ => .ok true) (pageLimit options) ids).map idResults
  else
    (applySearchOptions lib q options
      (nearbyCandidates lib q (c.visibleObjects ctx.nowMs false ids) lat lon) none false).mapError
        .index

/-- What WITHIN and INTERSECTS share: the area, its predicate and the ids its envelope selects. -/
def areaQuery (lib : GeoLib) (area : Area) (holds : GeoType → Except GeoError Bool)
    (idsIn : BoundingBox → List String) (options : SearchOptions) (allowClip : Bool) :
    Except CoreError SearchResults := do
  let bounds ← (q.areaEnvelope area).mapError .geo
  if spatialFast options then
    (c.fastIdsFromSpatialVisit ctx.nowMs (fun object => (holds object.geo).mapError .geo)
      (pageLimit options) (idsIn bounds)).map idResults
  else do
    let candidates ← (areaCandidates holds
      (c.visibleObjects ctx.nowMs false (idsIn bounds))).mapError .index
    (applySearchOptions lib q options candidates (some area) allowClip).mapError .index

end Collection

namespace Db

variable (db : Db) (ctx : Ctx)

def nearbyChecked (collection : String) (lat lon meters : F64) (options : SearchOptions)
    (query : Collection → Except CoreError SearchResults) : Except CoreError SearchResults := do
  (validateLatLon lib.toGeoLib lat lon).mapError .geo
  (validateMeters lib.toGeoLib meters).mapError .geo
  (options.validate q.toFilterLib).mapError .index
  let cell ← db.existingCollectionHandle collection
  query cell.collection

/-- What WITHIN and INTERSECTS do before they look into the collection. -/
def areaChecked (collection : String) (area : Area) (options : SearchOptions)
    (query : Area → Collection → Except CoreError SearchResults) :
    Except CoreError SearchResults := do
  (area.validate lib.toGeoLib).mapError .geo
  (options.validate q.toFilterLib).mapError .index
  let area ← db.resolveArea q ctx area
  let cell ← db.existingCollectionHandle collection
  query area cell.collection

def nearby (collection : String) (lat lon meters : F64) (options : SearchOptions) :
    Except CoreError SearchResults :=
  db.nearbyChecked q lib collection lat lon meters options fun c =>
    c.nearby q ctx lib.toGeoLib lat lon meters options

def within (collection : String) (area : Area) (options : SearchOptions) :
    Except CoreError SearchResults :=
  db.areaChecked q lib ctx collection area options fun area c =>
    c.areaQuery q ctx lib.toGeoLib area (q.containsGeo area)
      (c.spatialIndex.withinCandidateIds q) options false

def intersects (collection : String) (area : Area) (options : SearchOptions) :
    Except CoreError SearchResults :=
  db.areaChecked q lib ctx collection area options fun area c =>
    c.areaQuery q ctx lib.toGeoLib area (q.intersectsGeo area)
      (c.spatialIndex.intersectingCandidateIds q) options true

end Db

end LatLng.Core
