import LatLng.Core.IndexedScan
import LatLng.Geo.Area

/-! The queries in the serial and in the parallel build. The parallel build works on copies of the
objects and, from a number of them on, evaluates all of them before it looks at the results; an
area predicate that fails fails the query there, and drops the object in the serial build. -/

namespace LatLng.Core

open Geo Index List

inductive Build where
  | serial
  | parallel

def parallelDistanceThreshold : Nat := 256

def parallelGeometryThreshold : Nat := 128

def parallelFilterThreshold : Nat := 128

def keepSome {ε α : Type} : List (Except ε (Option α)) → Except ε (List α)
  | [] => .ok []
  | item :: items => do
    let kept ← item
    let rest ← keepSome items
    .ok (kept.toList ++ rest)

section Candidates

variable (q : QueryLib)

def filterCandidatesIn (options : SearchOptions) (candidates : List SearchCandidate) :
    Build → Except IndexError (List SearchCandidate)
  | .serial => filterCandidates q options candidates
  | .parallel =>
    if candidates.length < parallelFilterThreshold then filterCandidates q options candidates
    else keepSome (candidates.map fun candidate =>
      (matchesCandidate q.toFilterLib candidate.object options).map fun matched =>
        if matched then some candidate else none)

def nearbyCandidatesIn (lib : GeoLib) (objects : List Object) (lat lon : F64) :
    Build → List SearchCandidate
  | .serial => nearbyCandidates lib q objects lat lon
  | .parallel =>
    let items := objects.filterMap fun object =>
      (candidateDistance lib q object lat lon).map fun distance =>
        { object, distanceMeters := some distance }
    if parallelDistanceThreshold ≤ objects.length then sortCandidates items false
    else sortCandidates items false

def areaCandidatesIn (holds : GeoType → Except GeoError Bool) (objects : List Object) :
    Build → Except IndexError (List SearchCandidate)
  | .serial => .ok (objects.filterMap fun object =>
    match holds object.geo with
    | .ok true => some (bare object)
    | _ => none)
  | .parallel =>
    if parallelGeometryThreshold ≤ objects.length then
      keepSome (objects.map fun object =>
        ((holds object.geo).mapError IndexError.geo).map fun matched =>
          if matched then some (bare object) else none)
    else areaCandidates holds objects

def applySearchOptionsIn (lib : GeoLib) (options : SearchOptions)
    (candidates : List SearchCandidate) (area : Option Area) (allowClip : Bool) (build : Build) :
    Except IndexError SearchResults :=
  if options.fastLimitedIds then applyFastLimitedIds q options candidates
  else do
    let filtered ← filterCandidatesIn q options candidates build
    pageOf lib q options filtered area allowClip

end Candidates

namespace Collection

variable (q : QueryLib) (lib : GeoLib) (c : Collection) (ctx : Ctx) (build : Build)

def nearbyIn (lat lon meters : F64) (options : SearchOptions) : Except CoreError SearchResults :=
  let ids := c.spatialIndex.nearbyIds q lat lon meters
  if spatialFast options then
    (c.fastIdsFromSpatialVisit ctx.nowMs (fun _ => .ok true) (pageLimit options) ids).map idResults
  else
    (applySearchOptionsIn q lib options (nearbyCandidatesIn q lib
      (c.visibleObjects ctx.nowMs false ids) lat lon build) none false build).mapError .index

def areaQueryIn (area : Area) (holds : GeoType → Except GeoError Bool)
    (idsIn : BoundingBox → List String) (options : SearchOptions) (allowClip : Bool) :
    Except CoreError SearchResults := do
  let bounds ← (q.areaEnvelope area).mapError .geo
  if spatialFast options then
    (c.fastIdsFromSpatialVisit ctx.nowMs (fun object => (holds object.geo).mapError .geo)
      (pageLimit options) (idsIn bounds)).map idResults
  else do
    let candidates ← (areaCandidatesIn holds
      (c.visibleObjects ctx.nowMs false (idsIn bounds)) build).mapError .index
    (applySearchOptionsIn q lib options candidates (some area) allowClip build).mapError .index

def scanCandidatesIn (options : SearchOptions) (stringOnly : Bool) :
    Except Panic (List SearchCandidate) := do
  let ids := (← c.fieldIndexes.candidateIds q options).getD (ctx.order c.objects.keys)
  match build with
  | .serial => .ok ((c.visibleObjects ctx.nowMs stringOnly ids).map bare)
  | .parallel =>
    let objects := c.visibleObjects ctx.nowMs false ids
    .ok ((if stringOnly then objects.filter fun object => isString object.geo else objects).map
      bare)

def scanIn (options : SearchOptions) (stringOnly : Bool) :
    Except Panic (Except IndexError SearchResults) := do
  match ← c.fastIndexedResults q ctx.nowMs options stringOnly with
  | .error e => .ok (.error e)
  | .ok (some results) => .ok (.ok results)
  | .ok none =>
    let candidates ← c.scanCandidatesIn q ctx build options stringOnly
    .ok (applySearchOptionsIn q lib options candidates none false build)

end Collection

inductive Query where
  | nearby (lat lon meters : F64)
  | within (area : Area)
  | intersects (area : Area)
  | scan
  | search

namespace Db

variable (q : QueryLib) (lib : Lib) (db : Db) (ctx : Ctx) (build : Build)

def scanObjectsIn (collection : String) (options : SearchOptions) (stringOnly : Bool) :
    Except Panic (Except CoreError SearchResults) :=
  db.scanChecked q collection options fun c => c.scanIn q lib.toGeoLib ctx build options stringOnly

def queryIn (collection : String) (options : SearchOptions) :
    Query → Except Panic (Except CoreError SearchResults)
  | .nearby lat lon meters => .ok (db.nearbyChecked q lib collection lat lon meters options fun c =>
    c.nearbyIn q lib.toGeoLib ctx build lat lon meters options)
  | .within area => .ok (db.areaChecked q lib ctx collection area options fun area c =>
    c.areaQueryIn q lib.toGeoLib ctx build area (q.containsGeo area)
      (c.spatialIndex.withinCandidateIds q) options false)
  | .intersects area => .ok (db.areaChecked q lib ctx collection area options fun area c =>
    c.areaQueryIn q lib.toGeoLib ctx build area (q.intersectsGeo area)
      (c.spatialIndex.intersectingCandidateIds q) options true)
  | .scan => db.scanObjectsIn q lib ctx build collection options false
  | .search => db.scanObjectsIn q lib ctx build collection options true

end Db

/-! ### The steps that differ -/

section Steps

/-- Looking at results that were all computed beforehand is the loop that computes one at a time
and stops at the first error. -/
theorem keepSome_map {ε α β : Type} {verdict : α → Except ε Bool} {candidate : α → β}
    (loop : List α → Except ε (List β)) (hnil : loop [] = .ok [])
    (hcons : ∀ item items, loop (item :: items) = do
      let matched ← verdict item
      let rest ← loop items
      .ok (if matched then candidate item :: rest else rest)) (items : List α) :
    keepSome (items.map fun item => (verdict item).map fun matched =>
      if matched then some (candidate item) else none) = loop items := by
  induction items with
  | nil => exact hnil.symm
  | cons item items ih =>
    rw [map_cons, keepSome, ih, hcons]
    cases verdict item with
    | error e => rfl
    | ok matched =>
      cases loop items with
      | error e => rfl
      | ok rest => cases matched <;> rfl

variable {q : QueryLib} {options : SearchOptions}

theorem filterCandidatesIn_eq (candidates : List SearchCandidate) (build : Build) :
    filterCandidatesIn q options candidates build = filterCandidates q options candidates := by
  cases build with
  | serial => rfl
  | parallel =>
    rw [filterCandidatesIn, ite_eq_left_iff]
    intro _
    exact keepSome_map (filterCandidates q options) rfl (fun _ _ => rfl) candidates

theorem nearbyCandidatesIn_eq (lib : GeoLib) (objects : List Object) (lat lon : F64)
    (build : Build) :
    nearbyCandidatesIn q lib objects lat lon build = nearbyCandidates lib q objects lat lon := by
  cases build with
  | serial => rfl
  | parallel => exact ite_self _

theorem applySearchOptionsIn_eq (lib : GeoLib) (candidates : List SearchCandidate)
    (area : Option Area) (allowClip : Bool) (build : Build) :
    applySearchOptionsIn q lib options candidates area allowClip build =
      applySearchOptions lib q options candidates area allowClip := by
  unfold applySearchOptionsIn applySearchOptions
  rw [filterCandidatesIn_eq]

variable {holds : GeoType → Except GeoError Bool} {objects : List Object}

theorem areaCandidates_eq_serial (h : ∀ object ∈ objects, ∃ verdict, holds object.geo = .ok verdict) :
    areaCandidates holds objects = areaCandidatesIn holds objects .serial := by
  unfold areaCandidatesIn
  induction objects with
  | nil => rfl
  | cons object objects ih =>
    obtain ⟨⟨verdict, hverdict⟩, hrest⟩ := forall_mem_cons.1 h
    rw [areaCandidates, ih hrest, filterMap_cons, hverdict]
    cases verdict <;> rfl

theorem areaCandidatesIn_eq (h : ∀ object ∈ objects, ∃ verdict, holds object.geo = .ok verdict)
    (build : Build) : areaCandidatesIn holds objects build = areaCandidates holds objects := by
  cases build with
  | serial => exact (areaCandidates_eq_serial h).symm
  | parallel =>
    rw [areaCandidatesIn, ite_eq_right_iff]
    intro _
    exact keepSome_map (areaCandidates holds) rfl (fun _ _ => rfl) objects

theorem Collection.scanCandidatesIn_eq (c : Collection) (ctx : Ctx) (stringOnly : Bool)
    (build : Build) :
    c.scanCandidatesIn q ctx build options stringOnly =
      c.scanCandidates q ctx options stringOnly := by
  unfold Collection.scanCandidatesIn Collection.scanCandidates
  cases build with
  | serial => rfl
  | parallel =>
    cases stringOnly with
    | false => rfl
    | true =>
      -- the string objects among the live ones are the live string objects
      have hfilter : ∀ ids, (c.visibleObjects ctx.nowMs false ids).filter
          (fun object => isString object.geo) = c.visibleObjects ctx.nowMs true ids := by
        intro ids
        unfold Collection.visibleObjects
        rw [filter_filter]
        congr 1
        funext object
        simp [Collection.visible, Bool.and_comm]
      simp only [hfilter, if_true]

end Steps

/-! ### Objects that are indexed -/

/-- What the queries take from the geometry and the R-tree: the predicates are those of the area,
and a lookup finds entries that were stored. -/
structure SoundQuery (q : QueryLib) {lib : GeoLib} (areas : AreaLib lib) : Prop where
  areaEnvelope : ∀ area, q.areaEnvelope area = area.envelope areas
  containsGeo : ∀ area geo, q.containsGeo area geo = area.containsGeo areas geo
  intersectsGeo : ∀ area geo, q.intersectsGeo area geo = area.intersectsGeo areas geo
  locateInEnvelope : ∀ entries bounds entry,
    entry ∈ q.locateInEnvelope entries bounds → entry ∈ entries
  locateInEnvelopeIntersecting : ∀ entries bounds entry,
    entry ∈ q.locateInEnvelopeIntersecting entries bounds → entry ∈ entries

def Collection.EntriesStored (lib : GeoLib) (c : Collection) : Prop :=
  ∀ entry ∈ c.spatialIndex.tree, ∃ object bounds, c.objects[entry.id]? = some object ∧
    object.geo.envelope lib = .ok (some bounds) ∧ entry = IndexedEntry.new lib entry.id bounds

namespace Collection

variable {q : QueryLib} {lib : GeoLib} {areas : AreaLib lib} {c : Collection} {ctx : Ctx}
  {options : SearchOptions} {entries : List IndexedEntry}

theorem EntriesStored.envelope (h : c.EntriesStored lib)
    (hentries : ∀ entry ∈ entries, entry ∈ c.spatialIndex.tree) {object : Object}
    (hobject : object ∈ (entries.map IndexedEntry.id).filterMap fun id => c.objects[id]?) :
    ∃ bounds, object.geo.envelope lib = .ok (some bounds) := by
  obtain ⟨id, hid, hstored⟩ := mem_filterMap.1 hobject
  obtain ⟨entry, hentry, rfl⟩ := mem_map.1 hid
  obtain ⟨found, bounds, hfound, hbounds, -⟩ := h entry (hentries entry hentry)
  rw [hfound] at hstored
  cases hstored
  exact ⟨bounds, hbounds⟩

theorem nearbyIn_eq (build : Build) (lat lon meters : F64) :
    c.nearbyIn q lib ctx build lat lon meters options =
      c.nearby q ctx lib lat lon meters options := by
  unfold nearbyIn nearby
  simp only [nearbyCandidatesIn_eq, applySearchOptionsIn_eq]

theorem areaQueryIn_eq {area : Area} {holds : GeoType → Except GeoError Bool}
    {idsIn : BoundingBox → List String}
    (h : ∀ bounds, q.areaEnvelope area = .ok bounds →
      ∀ object ∈ (idsIn bounds).filterMap fun id => c.objects[id]?,
        ∃ verdict, holds object.geo = .ok verdict) (allowClip : Bool) (build : Build) :
    c.areaQueryIn q lib ctx build area holds idsIn options allowClip =
      c.areaQuery q ctx lib area holds idsIn options allowClip := by
  unfold areaQueryIn areaQuery
  cases hbounds : q.areaEnvelope area with
  | error e => rfl
  | ok bounds =>
    have hvisible : ∀ object ∈ c.visibleObjects ctx.nowMs false (idsIn bounds),
        ∃ verdict, holds object.geo = .ok verdict :=
      fun object hobject => h bounds hbounds object (mem_of_mem_filter hobject)
    simp only [Except.mapError, bind, Except.bind, areaCandidatesIn_eq hvisible,
      applySearchOptionsIn_eq]

theorem scanIn_eq (build : Build) (stringOnly : Bool) :
    c.scanIn q lib ctx build options stringOnly = c.scan q lib ctx options stringOnly := by
  unfold scanIn scan
  rcases c.fastIndexedResults q ctx.nowMs options stringOnly with _ | _ | _ | _
  case ok.ok.none => simp only [bind, Except.bind, scanCandidatesIn_eq, applySearchOptionsIn_eq]
  all_goals rfl

theorem EntriesStored.decided (hq : SoundQuery q areas) (h : c.EntriesStored lib) {area : Area}
    {bounds : BoundingBox} (hbounds : q.areaEnvelope area = .ok bounds)
    (hentries : ∀ entry ∈ entries, entry ∈ c.spatialIndex.tree)
    (holds : lib.Geometry → lib.Geometry → Bool) :
    ∀ object ∈ (entries.map IndexedEntry.id).filterMap fun id => c.objects[id]?,
      ∃ verdict, area.test areas holds object.geo = .ok verdict := by
  intro object hobject
  obtain ⟨box, hbox⟩ := h.envelope hentries hobject
  rw [hq.areaEnvelope] at hbounds
  exact Area.test_of_envelopes hbounds hbox

theorem EntriesStored.withinIn_eq (hq : SoundQuery q areas) (h : c.EntriesStored lib) (area : Area)
    (build : Build) :
    c.areaQueryIn q lib ctx build area (q.containsGeo area) (c.spatialIndex.withinCandidateIds q)
        options false =
      c.areaQuery q ctx lib area (q.containsGeo area) (c.spatialIndex.withinCandidateIds q) options
        false := by
  refine areaQueryIn_eq (fun bounds hbounds => ?_) false build
  rw [funext (hq.containsGeo area)]
  exact h.decided hq hbounds (hq.locateInEnvelope _ bounds) _

theorem EntriesStored.intersectsIn_eq (hq : SoundQuery q areas) (h : c.EntriesStored lib)
    (area : Area) (build : Build) :
    c.areaQueryIn q lib ctx build area (q.intersectsGeo area)
        (c.spatialIndex.intersectingCandidateIds q) options true =
      c.areaQuery q ctx lib area (q.intersectsGeo area)
        (c.spatialIndex.intersectingCandidateIds q) options true := by
  refine areaQueryIn_eq (fun bounds hbounds => ?_) true build
  rw [funext (hq.intersectsGeo area)]
  exact h.decided hq hbounds (hq.locateInEnvelopeIntersecting _ bounds) _

end Collection

namespace Db

variable {q : QueryLib} {lib : Lib} {areas : AreaLib lib.toGeoLib}

def query (q : QueryLib) (lib : Lib) (db : Db) (ctx : Ctx) (collection : String)
    (options : SearchOptions) : Query → Except Panic (Except CoreError SearchResults)
  | .nearby lat lon meters => .ok (db.nearby q lib ctx collection lat lon meters options)
  | .within area => .ok (db.within q lib ctx collection area options)
  | .intersects area => .ok (db.intersects q lib ctx collection area options)
  | .scan => db.scan q lib ctx collection options
  | .search => db.search q lib ctx collection options

theorem scanObjectsIn_eq (db : Db) (ctx : Ctx) (collection : String) (options : SearchOptions)
    (stringOnly : Bool) (build : Build) :
    db.scanObjectsIn q lib ctx build collection options stringOnly =
      db.scanObjects q lib ctx collection options stringOnly := by
  simp only [scanObjectsIn, scanObjects, Collection.scanIn_eq]

theorem queryIn_eq (hq : SoundQuery q areas) (db : Db) (ctx : Ctx) (collection : String)
    (hstored : ∀ cell, db.existingCollectionHandle collection = .ok cell →
      cell.collection.EntriesStored lib.toGeoLib)
    (options : SearchOptions) (query : Query) (build : Build) :
    db.queryIn q lib ctx build collection options query =
      db.query q lib ctx collection options query := by
  cases query with
  | nearby lat lon meters =>
    simp only [queryIn, Db.query, nearby, Collection.nearbyIn_eq]
  | within area =>
    simp only [queryIn, Db.query, within, areaChecked]
    cases hcell : db.existingCollectionHandle collection with
    | error e => rfl
    | ok cell => simp only [bind, Except.bind, (hstored cell hcell).withinIn_eq hq]
  | intersects area =>
    simp only [queryIn, Db.query, intersects, areaChecked]
    cases hcell : db.existingCollectionHandle collection with
    | error e => rfl
    | ok cell => simp only [bind, Except.bind, (hstored cell hcell).intersectsIn_eq hq]
  | scan => exact scanObjectsIn_eq db ctx collection options false build
  | search => exact scanObjectsIn_eq db ctx collection options true build

end Db

/-- The serial and the parallel build give the same results, cursor and count, or the same error,
whatever the number of objects. -/
theorem builds_agree {q : QueryLib} {lib : Lib} {areas : AreaLib lib.toGeoLib}
    (hq : SoundQuery q areas) (db : Db) (ctx : Ctx) (collection : String)
    (hstored : ∀ cell, db.existingCollectionHandle collection = .ok cell →
      cell.collection.EntriesStored lib.toGeoLib) (options : SearchOptions) (query : Query) :
    db.queryIn q lib ctx .serial collection options query =
      db.queryIn q lib ctx .parallel collection options query := by
  rw [Db.queryIn_eq hq db ctx collection hstored options query .serial,
    Db.queryIn_eq hq db ctx collection hstored options query .parallel]

namespace Parked

open Sample

def parkedQuery : QueryLib :=
  { Gauges.gauges with
    areaEnvelope := fun area => area.envelope touching
    containsGeo := fun area geo => area.containsGeo touching geo
    intersectsGeo := fun area geo => area.intersectsGeo touching geo }

theorem sound_parkedQuery : SoundQuery parkedQuery touching where
  areaEnvelope := fun _ => rfl
  containsGeo := fun _ _ => rfl
  intersectsGeo := fun _ _ => rfl
  locateInEnvelope := fun _ _ _ h => h
  locateInEnvelopeIntersecting := fun _ _ _ h => h

def origin : GeoType := .point F64.zero F64.zero none

def parkedFleet : VersionedCollection :=
  { VersionedCollection.new "fleet" with
    collection :=
      { name := "fleet"
        objects := (∅ : Std.ExtTreeMap String Object).insert "truck"
          { id := "truck", geo := origin, fields := ∅, expiresAt := none }
        spatialIndex :=
          { tree := .replicate parallelGeometryThreshold (IndexedEntry.new blankLib.toGeoLib "truck"
              ⟨F64.zero, F64.zero, F64.zero, F64.zero⟩)
            entriesById := ∅ } } }

def parkedDb : Db where
  storage := {}
  collections := (∅ : Std.ExtTreeMap String VersionedCollection).insert "fleet" parkedFleet

def around : Query := .intersects (.circle F64.zero F64.zero F64.ninety)

/-- The tree has so many entries for the truck that the parallel build evaluates all of them. -/
theorem parked_truck_counted_by_both :
    parkedDb.queryIn parkedQuery blankLib sampleCtx .serial "fleet" { output := .count } around =
      .ok (.ok { results := [], cursor := 100, count := 128 }) ∧
    parkedDb.queryIn parkedQuery blankLib sampleCtx .parallel "fleet" { output := .count } around =
      .ok (.ok { results := [], cursor := 100, count := 128 }) := by
  have hserial : parkedDb.queryIn parkedQuery blankLib sampleCtx .serial "fleet"
      { output := .count } around = .ok (.ok { results := [], cursor := 100, count := 128 }) := by
    set_option maxRecDepth 2000 in rfl
  have hstored : ∀ cell, parkedDb.existingCollectionHandle "fleet" = .ok cell →
      cell.collection.EntriesStored blankLib.toGeoLib := by
    intro cell hcell
    have hfleet : parkedDb.existingCollectionHandle "fleet" = .ok parkedFleet := rfl
    rw [hfleet] at hcell
    cases hcell
    intro entry hentry
    cases (mem_replicate.1 hentry).2
    exact ⟨_, _, rfl, rfl, rfl⟩
  refine ⟨hserial, ?_⟩
  rw [← builds_agree sound_parkedQuery parkedDb sampleCtx "fleet" hstored]
  exact hserial

end Parked

end LatLng.Core
