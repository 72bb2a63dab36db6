import LatLng.Index.Filters

/-! What a search makes of its candidates: the filters, the order, the page and the form in
which objects are returned. -/

namespace LatLng.Index

open Geo List

/-- What a search needs besides the filters: how geometries are rendered and clipped, and what
the R-tree finds among the entries it holds. -/
structure QueryLib extends FilterLib where
  haversineDistanceMeters : F64 → F64 → F64 → F64 → F64
  encodeGeohash : F64 → F64 → UInt8 → String
  clipGeo : GeoType → Option Area → Except IndexError GeoType
  toGeojsonValue : GeoType → Except GeoError Json
  areaEnvelope : Area → Except GeoError BoundingBox
  containsGeo : Area → GeoType → Except GeoError Bool
  intersectsGeo : Area → GeoType → Except GeoError Bool
  /-- The entries by their distance from a position. -/
  nearestNeighbors : List IndexedEntry → F64 × F64 → List IndexedEntry
  locateInEnvelope : List IndexedEntry → BoundingBox → List IndexedEntry
  locateInEnvelopeIntersecting : List IndexedEntry → BoundingBox → List IndexedEntry

structure SearchItem where
  id : String
  object : Option GeoType
  fields : Option FieldMap
  distanceMeters : Option F64

structure SearchResults where
  results : List SearchItem
  cursor : Nat
  count : Nat

structure SearchCandidate where
  object : Object
  distanceMeters : Option F64

def bare (object : Object) : SearchCandidate := ⟨object, none⟩

def SearchOptions.fastLimitedIds (options : SearchOptions) : Bool :=
  !options.includeCount && options.cursor == 0 && options.nofields &&
    decide (options.output = .ids) && !options.clip

def SearchOptions.hasFilters (options : SearchOptions) : Bool :=
  options.matchPattern.isSome || !options.whereFilters.isEmpty ||
    !options.whereInFilters.isEmpty || !options.whereExprFilters.isEmpty

/-! ### Order -/

/-- Distances that cannot be compared count as equal. -/
def compareDistances (left right : F64) : Ordering :=
  if left.lt right then .lt else if right.lt left then .gt else .eq

def compareCandidates (left right : SearchCandidate) (descending : Bool) : Ordering :=
  let ordering := match left.distanceMeters, right.distanceMeters with
    | some l, some r => (compareDistances l r).then (compare left.object.id right.object.id)
    | _, _ => compare left.object.id right.object.id
  if descending then ordering.swap else ordering

def sortCandidates (candidates : List SearchCandidate) (descending : Bool) :
    List SearchCandidate :=
  candidates.mergeSort fun left right => (compareCandidates left right descending).isLE

/-! ### Filters and pages -/

variable (lib : GeoLib) (q : QueryLib) (options : SearchOptions)

def filterCandidates : List SearchCandidate → Except IndexError (List SearchCandidate)
  | [] => .ok []
  | candidate :: candidates => do
    let matched ← matchesCandidate q.toFilterLib candidate.object options
    let filtered ← filterCandidates candidates
    .ok (if matched then candidate :: filtered else filtered)

def idItem (candidate : SearchCandidate) : SearchItem :=
  { id := candidate.object.id, object := none, fields := none
    distanceMeters := candidate.distanceMeters }

def firstMatches : Nat → List SearchCandidate → Except IndexError (List SearchItem)
  | 0, _ => .ok []
  | _, [] => .ok []
  | n + 1, candidate :: candidates => do
    if ← matchesCandidate q.toFilterLib candidate.object options then
      let items ← firstMatches n candidates
      .ok (idItem candidate :: items)
    else firstMatches (n + 1) candidates

def pageLimit : Nat := max options.limit 1

def idResults (items : List SearchItem) : SearchResults :=
  { results := items, cursor := 0, count := items.length }

def applyFastLimitedIds (candidates : List SearchCandidate) : Except IndexError SearchResults :=
  (firstMatches q options (pageLimit options) candidates).map idResults

def pointFromGeo (geo : GeoType) : Except IndexError (F64 × F64) :=
  match geo.pointCoordinates with
  | some position => .ok position
  | none => match geo.envelope lib with
    | .error e => .error (.geo e)
    | .ok none => .error (.geo (.invalidGeometry "non-spatial object"))
    | .ok (some bounds) => .ok (bounds.center lib)

def formatObject (object : Object) (area : Option Area) (clip : Bool) :
    OutputFormat → Except IndexError (Option GeoType)
  | .objects => if clip then (q.clipGeo object.geo area).map some else .ok (some object.geo)
  | .points => (pointFromGeo lib object.geo).map fun (lat, lon) => some (.point lat lon none)
  | .bounds => match object.geo.envelope lib with
    | .error e => .error (.geo e)
    | .ok bounds => .ok (bounds.map .bounds)
  | .hashes precision => (pointFromGeo lib object.geo).map fun (lat, lon) =>
    some (.hash (q.encodeGeohash lat lon precision))
  | .ids => .ok none
  | .count => .ok none

def searchItem (area : Option Area) (allowClip : Bool) (candidate : SearchCandidate) :
    Except IndexError SearchItem := do
  let clip := allowClip && options.clip && decide (options.output = .objects)
  let object ← formatObject lib q candidate.object area clip options.output
  .ok { id := candidate.object.id, object
        fields := if options.nofields then none else some candidate.object.fields
        distanceMeters := candidate.distanceMeters }

/-- The page of what got through the filters. The source sorts only as far as the page goes. -/
def pageOf (filtered : List SearchCandidate) (area : Option Area) (allowClip : Bool) :
    Except IndexError SearchResults :=
  let total := filtered.length
  let start := options.cursor
  let stop := min (start + pageLimit options) total
  let nextCursor := if stop < total then stop else 0
  if options.output = .count then .ok { results := [], cursor := nextCursor, count := total }
  else do
    let sorted := sortCandidates filtered (options.sort == .desc)
    let results ← ((sorted.drop start).take (pageLimit options)).mapM
      (searchItem lib q options area allowClip)
    .ok { results, cursor := nextCursor
          count := if options.includeCount then total else stop - start }

def applySearchOptions (candidates : List SearchCandidate) (area : Option Area)
    (allowClip : Bool) : Except IndexError SearchResults :=
  if options.fastLimitedIds then applyFastLimitedIds q options candidates
  else do
    let filtered ← filterCandidates q options candidates
    pageOf lib q options filtered area allowClip

/-! ### Candidates of a spatial search -/

namespace SpatialIndex

variable (index : SpatialIndex)

def nearbyIds (lat lon maxDistanceMeters : F64) : List String :=
  ((q.nearestNeighbors index.tree (lon, lat)).filter fun entry =>
    (q.haversineDistanceMeters lat lon entry.center.2 entry.center.1).le maxDistanceMeters).map
      IndexedEntry.id

def withinCandidateIds (bounds : BoundingBox) : List String :=
  (q.locateInEnvelope index.tree bounds).map IndexedEntry.id

def intersectingCandidateIds (bounds : BoundingBox) : List String :=
  (q.locateInEnvelopeIntersecting index.tree bounds).map IndexedEntry.id

end SpatialIndex

def candidateDistance (object : Object) (lat lon : F64) : Option F64 :=
  match object.geo.pointCoordinates with
  | some (pointLat, pointLon) => some (q.haversineDistanceMeters lat lon pointLat pointLon)
  | none => match object.geo.envelope lib with
    | .ok (some bounds) =>
      some (q.haversineDistanceMeters lat lon (bounds.center lib).1 (bounds.center lib).2)
    | _ => none

def nearbyCandidates (objects : List Object) (lat lon : F64) : List SearchCandidate :=
  sortCandidates (objects.filterMap fun object =>
    (candidateDistance lib q object lat lon).map fun distance =>
      { object, distanceMeters := some distance }) false

def areaCandidates (holds : GeoType → Except GeoError Bool) :
    List Object → Except IndexError (List SearchCandidate)
  | [] => .ok []
  | object :: objects => do
    let matched ← (holds object.geo).mapError .geo
    let candidates ← areaCandidates holds objects
    .ok (if matched then { object, distanceMeters := none } :: candidates else candidates)

/-! ### Pages do not depend on the order of the candidates -/

section Pages

variable {lib q options}

def idOrder (descending : Bool) (left right : String) : Ordering :=
  if descending then compare right left else compare left right

variable (descending : Bool)

theorem compareCandidates_of_none {left right : SearchCandidate} (h : left.distanceMeters = none) :
    compareCandidates left right descending =
      idOrder descending left.object.id right.object.id := by
  rw [compareCandidates, h, idOrder]
  cases descending with
  | false => rfl
  | true => exact Std.OrientedOrd.eq_swap.symm

theorem isLE_idOrder_trans {a b c : String}
    (hab : (idOrder descending a b).isLE) (hbc : (idOrder descending b c).isLE) :
    (idOrder descending a c).isLE = true := by
  cases descending with
  | false => exact @Std.TransCmp.isLE_trans String compare _ a b c hab hbc
  | true => exact @Std.TransCmp.isLE_trans String compare _ c b a hbc hab

theorem isLE_idOrder_total (a b : String) :
    ((idOrder descending a b).isLE || (idOrder descending b a).isLE) = true := by
  have hswap : compare b a = (compare a b).swap := Std.OrientedOrd.eq_swap
  cases descending <;> rw [idOrder, idOrder, hswap] <;> cases compare a b <;> rfl

theorem eq_of_isLE_idOrder {a b : String}
    (hab : (idOrder descending a b).isLE) (hba : (idOrder descending b a).isLE) :
    a = b := by
  have hswap : compare b a = (compare a b).swap := Std.OrientedOrd.eq_swap
  have heq : compare a b = .eq := by
    cases descending <;> rw [idOrder] at hab hba <;> simp only [hswap] at hab hba <;>
      cases hc : compare a b <;> rw [hc] at hab hba <;> simp_all [Ordering.isLE]
  exact Std.LawfulEqCmp.eq_of_compare heq

theorem sortCandidates_bare (objects : List Object) :
    sortCandidates (objects.map bare) descending =
      (objects.mergeSort fun a b => (idOrder descending a.id b.id).isLE).map bare := by
  have hle : ∀ a ∈ objects, ∀ b ∈ objects, (idOrder descending a.id b.id).isLE =
      (compareCandidates (bare a) (bare b) descending).isLE := by
    intro a _ b _
    rw [compareCandidates_of_none descending rfl]
    rfl
  exact (map_mergeSort hle).symm

theorem sortCandidates_perm {a b : List Object} (h : a.Perm b) (hids : (a.map Object.id).Nodup) :
    sortCandidates (a.map bare) descending = sortCandidates (b.map bare) descending := by
  rw [sortCandidates_bare, sortCandidates_bare]
  have hsorted : ∀ l : List Object, (l.mergeSort fun a b => (idOrder descending a.id b.id).isLE).Pairwise
      fun a b => (idOrder descending a.id b.id).isLE = true :=
    pairwise_mergeSort (fun _ _ _ => isLE_idOrder_trans descending)
      fun a b => isLE_idOrder_total descending a.id b.id
  have hperm := ((mergeSort_perm a fun a b => (idOrder descending a.id b.id).isLE).trans h).trans
    (mergeSort_perm b fun a b => (idOrder descending a.id b.id).isLE).symm
  congr 1
  refine List.Perm.eq_of_pairwise ?_ (hsorted a) (hsorted b) hperm
  intro x y hx hy hxy hyx
  have hxa : x ∈ a := (mergeSort_perm _ _).mem_iff.1 hx
  have hya : y ∈ a := h.mem_iff.2 ((mergeSort_perm _ _).mem_iff.1 hy)
  exact inj_on_of_nodup_map hids hxa hya (eq_of_isLE_idOrder descending hxy hyx)

theorem pageOf_perm {a b : List Object} (h : a.Perm b) (hids : (a.map Object.id).Nodup)
    (area : Option Area) (allowClip : Bool) :
    pageOf lib q options (a.map bare) area allowClip =
      pageOf lib q options (b.map bare) area allowClip := by
  have hsort := sortCandidates_perm (options.sort == .desc) h hids
  simp only [pageOf, hsort, length_map, h.length_eq]

end Pages

/-! ### Options that were validated -/

section Validated

variable {q options} (hvalid : options.validate q.toFilterLib = .ok ())

def accepts (f : FilterLib) (options : SearchOptions) (object : Object) : Bool :=
  match matchesCandidate f object options with
  | .ok matched => matched
  | .error _ => false

include hvalid

theorem matchesCandidate_eq (object : Object) :
    matchesCandidate q.toFilterLib object options = .ok (accepts q.toFilterLib options object) := by
  obtain ⟨b, hb⟩ := matchesCandidate_ok hvalid object
  rw [accepts, hb]

theorem filterCandidates_eq (candidates : List SearchCandidate) :
    filterCandidates q options candidates =
      .ok (candidates.filter fun c => accepts q.toFilterLib options c.object) := by
  induction candidates with
  | nil => rfl
  | cons candidate candidates ih =>
    simp only [filterCandidates, matchesCandidate_eq hvalid, ih, bind, Except.bind]
    rw [filter_cons]

theorem firstMatches_eq (n : Nat) (candidates : List SearchCandidate) :
    firstMatches q options n candidates =
      .ok (((candidates.filter fun c => accepts q.toFilterLib options c.object).take n).map
        idItem) := by
  induction candidates generalizing n with
  | nil => cases n <;> simp [firstMatches]
  | cons candidate candidates ih =>
    cases n with
    | zero => simp [firstMatches]
    | succ n =>
      simp only [firstMatches, matchesCandidate_eq hvalid, bind, Except.bind]
      by_cases hm : accepts q.toFilterLib options candidate.object = true
      · simp [hm, ih n]
      · simp [hm, ih (n + 1)]

end Validated

end LatLng.Index
