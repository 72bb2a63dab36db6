import LatLng.Core.Builds
import LatLng.Core.Mirror

/-! Answers in limited-ids mode. The fast paths return the first ids that match and stop when the
page is full; the cursor they return is always 0. -/

namespace LatLng.Core

open Geo Index List

def isTrue {ε : Type} : Except ε Bool → Bool
  | .ok verdict => verdict
  | .error _ => false

/-- The iterators of the R-tree come to no entry twice. -/
structure VisitsOnce (q : QueryLib) : Prop where
  nearestNeighbors : ∀ entries position, (q.nearestNeighbors entries position).Subperm entries
  locateInEnvelope : ∀ entries bounds, (q.locateInEnvelope entries bounds).Subperm entries
  locateInEnvelopeIntersecting : ∀ entries bounds,
    (q.locateInEnvelopeIntersecting entries bounds).Subperm entries

section Filters

variable {f : FilterLib} {options : SearchOptions}

theorem SearchOptions.accepts_of_hasFilters (h : options.hasFilters = false) :
    options.validate f = .ok () ∧ ∀ object, accepts f options object = true := by
  simp only [SearchOptions.hasFilters, Bool.or_eq_false_iff, Bool.not_eq_false',
    List.isEmpty_iff, Option.isSome_eq_false_iff, Option.isNone_iff_eq_none] at h
  obtain ⟨⟨⟨hpattern, hwhere⟩, hin⟩, hexpr⟩ := h
  refine ⟨?_, fun object => ?_⟩
  · rw [SearchOptions.validate, hwhere, hexpr]
    rfl
  · rw [accepts, matchesCandidate, matchesPattern, hpattern, hwhere, hin, hexpr]
    rfl

end Filters

theorem pageOf_ids (q : QueryLib) (lib : GeoLib) {options : SearchOptions}
    (houtput : options.output = .ids) (hcursor : options.cursor = 0)
    {candidates : List SearchCandidate} (hlimit : candidates.length ≤ pageLimit options)
    (area : Option Area) (allowClip : Bool) :
    ∃ all, pageOf lib q options candidates area allowClip = .ok all ∧
      (all.results.map SearchItem.id).Perm (candidates.map fun c => c.object.id) := by
  have hsorted : (sortCandidates candidates (options.sort == .desc)).Perm candidates :=
    mergeSort_perm _ _
  have hpage : ((sortCandidates candidates (options.sort == .desc)).drop options.cursor).take
      (pageLimit options) = sortCandidates candidates (options.sort == .desc) := by
    rw [hcursor, drop_zero]
    exact take_of_length_le (hsorted.length_eq.trans_le hlimit)
  have hitem : ∀ c, searchItem lib q options area allowClip c = .ok
      { id := c.object.id, object := none
        fields := if options.nofields then none else some c.object.fields
        distanceMeters := c.distanceMeters } := by
    intro c
    rw [searchItem, houtput]
    rfl
  simp only [pageOf, hpage, LatLng.Lib.mapM_ok fun c _ => hitem c, houtput]
  refine ⟨_, rfl, ?_⟩
  rw [map_map]
  exact hsorted.map _

namespace Collection

structure Coherent (lib : GeoLib) (c : Collection) : Prop extends c.Fielded where
  stored : c.EntriesStored lib
  distinct : (c.spatialIndex.tree.map IndexedEntry.id).Nodup

variable {q : QueryLib} {lib : GeoLib} {c : Collection} {ids : List String}

/-- So is every collection after any sequence of its updates (`mirrored_run`). -/
theorem Mirrored.coherent (h : c.Mirrored lib) : c.Coherent lib :=
  { h.toKeyed with
    backed := fun id field key => (h.fields field key id).1
    stored := fun _ => h.mem_tree.1
    distinct := h.spatial.distinct }

theorem fastIdsFromSpatialVisit_eq (now : Nat) {matching : Object → Except CoreError Bool} (n : Nat)
    (h : ∀ object ∈ ids.filterMap (fun id => c.objects[id]?),
      ∃ verdict, matching object = .ok verdict) :
    c.fastIdsFromSpatialVisit now matching n ids =
      .ok ((((c.visibleObjects now false ids).filter fun object => isTrue (matching object)).take
        n).map fun object => idItem (bare object)) := by
  rw [visibleObjects, filter_filter]
  refine LatLng.Lib.visit_eq_take (c.fastIdsFromSpatialVisit now matching)
    (fun ids => by cases ids <;> rfl) (fun n => by cases n <;> rfl) (fun n id hid rest => ?_) n
  rw [fastIdsFromSpatialVisit]
  cases ho : c.objects[id]? with
  | none => rfl
  | some object =>
    obtain ⟨verdict, hverdict⟩ := h object (mem_filterMap.2 ⟨id, hid, ho⟩)
    cases hx : isExpired now object <;> cases verdict <;>
      cases c.fastIdsFromSpatialVisit now matching n rest <;>
        simp [Option.filter, visible, isTrue, hx, hverdict, bind, Except.bind, Except.map]

theorem Coherent.nodup (h : c.Coherent lib) {entries : List IndexedEntry}
    (hentries : entries.Subperm c.spatialIndex.tree) :
    (((entries.map IndexedEntry.id).filterMap fun id => c.objects[id]?).map Object.id).Nodup := by
  obtain ⟨visited, hperm, hsub⟩ := hentries
  have hids : (entries.map IndexedEntry.id).Nodup :=
    (hperm.map _).nodup_iff.1 (h.distinct.sublist (hsub.map _))
  exact hids.sublist (h.ids_sublist _)

theorem Coherent.getElem_of_visible (h : c.Coherent lib) {now : Nat} {object : Object}
    (hobject : object ∈ c.visibleObjects now false ids) : c.objects[object.id]? = some object := by
  obtain ⟨id, -, hid⟩ := mem_filterMap.1 (mem_of_mem_filter hobject)
  rw [h.ids id object hid]
  exact hid

/-- How a spatial query answers that finds the given objects before any filter. -/
structure Answers (q : QueryLib) (lib : GeoLib) (c : Collection) (found : List Object)
    (answer : SearchOptions → Except CoreError SearchResults) : Prop where
  stored : ∀ object ∈ found, c.objects[object.id]? = some object
  distinct : (found.map Object.id).Nodup
  fast : ∀ options, options.validate q.toFilterLib = .ok () → spatialFast options = true →
    answer options =
      .ok (idResults ((found.take (pageLimit options)).map fun object => idItem (bare object)))
  general : ∀ options, options.validate q.toFilterLib = .ok () → spatialFast options = false →
    ∃ candidates area clip, (candidates.map SearchCandidate.object).Perm found ∧
      answer options = (applySearchOptions lib q options candidates area clip).mapError .index

def AnswersOrFails (q : QueryLib) (lib : GeoLib) (c : Collection) (found : List Object)
    (answer : SearchOptions → Except CoreError SearchResults) : Prop :=
  (∃ e, ∀ options, options.validate q.toFilterLib = .ok () → answer options = .error e) ∨
    Answers q lib c found answer

variable {found : List Object}

theorem AnswersOrFails.bind {α : Type} {x : Except CoreError α}
    {answer : α → SearchOptions → Except CoreError SearchResults}
    (h : ∀ a, x = .ok a → AnswersOrFails q lib c found (answer a)) :
    AnswersOrFails q lib c found fun options => x >>= fun a => answer a options := by
  cases x with
  | error e => exact .inl ⟨e, fun _ _ => rfl⟩
  | ok a => exact h a rfl

variable {answer : SearchOptions → Except CoreError SearchResults}

theorem AnswersOrFails.validated (h : AnswersOrFails q lib c found answer) :
    AnswersOrFails q lib c found fun options =>
      (options.validate q.toFilterLib).mapError .index >>= fun _ => answer options := by
  have hsame : ∀ options, options.validate q.toFilterLib = .ok () →
      ((options.validate q.toFilterLib).mapError CoreError.index >>= fun _ => answer options) =
        answer options := by
    intro options hvalid
    rw [hvalid]
    rfl
  rcases h with ⟨e, he⟩ | h
  · exact .inl ⟨e, fun options hvalid => (hsame options hvalid).trans (he options hvalid)⟩
  · refine .inr ⟨h.stored, h.distinct,
      fun options hvalid hfast => (hsame options hvalid).trans (h.fast options hvalid hfast),
      fun options hvalid hfast => ?_⟩
    rw [hsame options hvalid]
    exact h.general options hvalid hfast

theorem candidateDistance_isSome {object : Object} {bounds : BoundingBox}
    (hbounds : object.geo.envelope lib = .ok (some bounds)) (lat lon : F64) :
    ∃ distance, candidateDistance lib q object lat lon = some distance := by
  rw [candidateDistance]
  split
  · exact ⟨_, rfl⟩
  · rw [hbounds]
    exact ⟨_, rfl⟩

variable {objects : List Object}

theorem nearbyCandidates_perm
    (h : ∀ object ∈ objects, ∃ bounds, object.geo.envelope lib = .ok (some bounds))
    (lat lon : F64) :
    ((nearbyCandidates lib q objects lat lon).map SearchCandidate.object).Perm objects := by
  have hall : (objects.filterMap fun object => (candidateDistance lib q object lat lon).map
      fun distance => ({ object, distanceMeters := some distance } : SearchCandidate)).map
        SearchCandidate.object = objects := by
    induction objects with
    | nil => rfl
    | cons object objects ih =>
      obtain ⟨⟨bounds, hbounds⟩, hrest⟩ := forall_mem_cons.1 h
      obtain ⟨distance, hdistance⟩ := candidateDistance_isSome (q := q) hbounds lat lon
      rw [filterMap_cons, hdistance]
      exact congrArg (object :: ·) (ih hrest)
  rw [nearbyCandidates, sortCandidates]
  exact ((mergeSort_perm _ _).map _).trans (.of_eq hall)

theorem Answers.length_le (h : Answers q lib c found answer) : found.length ≤ c.objects.size := by
  have hkeys : found.map Object.id ⊆ c.objects.keys := by
    intro id hid
    obtain ⟨object, hobject, rfl⟩ := mem_map.1 hid
    rw [Std.ExtTreeMap.mem_keys, Std.ExtTreeMap.mem_iff_isSome_getElem?, h.stored object hobject]
    rfl
  rw [← found.length_map (f := Object.id), ← Std.ExtTreeMap.length_keys]
  exact (subperm_of_subset h.distinct hkeys).length_le

theorem Answers.page (h : Answers q lib c found answer) (options : SearchOptions)
    (hfast : options.fastLimitedIds = false) (hfilters : options.hasFilters = false)
    (houtput : options.output = .ids) (hcursor : options.cursor = 0)
    (hlimit : c.objects.size ≤ options.limit) :
    ∃ all, answer options = .ok all ∧
      (all.results.map SearchItem.id).Perm (found.map Object.id) := by
  obtain ⟨hvalid, haccepts⟩ := SearchOptions.accepts_of_hasFilters (f := q.toFilterLib) hfilters
  obtain ⟨candidates, area, clip, hperm, hanswer⟩ :=
    h.general options hvalid (by rw [spatialFast, hfast]; rfl)
  have hlength : candidates.length ≤ pageLimit options := by
    have hfound := h.length_le
    rw [← hperm.length_eq, length_map] at hfound
    exact (hfound.trans hlimit).trans (le_max_left _ _)
  obtain ⟨all, hall, hids⟩ := pageOf_ids q lib houtput hcursor hlength area clip
  refine ⟨all, ?_, hids.trans ?_⟩
  · rw [hanswer, applySearchOptions, hfast, if_neg Bool.false_ne_true, filterCandidates_eq hvalid,
      filter_eq_self.2 fun c _ => haccepts c.object]
    exact congrArg _ hall
  · have hmap : (candidates.map fun c => c.object.id) =
        (candidates.map SearchCandidate.object).map Object.id := by rw [map_map]; rfl
    rw [hmap]
    exact hperm.map _

variable {areas : AreaLib lib}

theorem Coherent.nearby_answers (h : c.Coherent lib) (hvisits : VisitsOnce q) (ctx : Ctx)
    (lat lon meters : F64) :
    Answers q lib c (c.visibleObjects ctx.nowMs false (c.spatialIndex.nearbyIds q lat lon meters))
      (c.nearby q ctx lib lat lon meters) := by
  have hentries := (filter_sublist (p := fun entry : IndexedEntry =>
    (q.haversineDistanceMeters lat lon entry.center.2 entry.center.1).le meters)).subperm.trans
      (hvisits.nearestNeighbors c.spatialIndex.tree (lon, lat))
  refine ⟨fun _ => h.getElem_of_visible, (h.nodup hentries).sublist (filter_sublist.map _),
    fun options _ hfast => ?_,
    fun options _ hfast => ⟨_, none, false, nearbyCandidates_perm (q := q) (fun object hobject =>
      h.stored.envelope (fun _ hentry => hentries.subset hentry)
        (mem_of_mem_filter hobject)) lat lon, ?_⟩⟩
  · rw [nearby, if_pos hfast, fastIdsFromSpatialVisit_eq _ _ fun _ _ => ⟨true, rfl⟩]
    simp [isTrue, Except.map]
  · rw [nearby, hfast]
    rfl

variable {holds : GeoType → Except GeoError Bool}

theorem exists_areaCandidates (h : ∀ object ∈ objects, ∃ verdict, holds object.geo = .ok verdict) :
    ∃ candidates, areaCandidates holds objects = .ok candidates ∧
      candidates.map SearchCandidate.object =
        objects.filter fun object => isTrue (holds object.geo) := by
  induction objects with
  | nil => exact ⟨[], rfl, rfl⟩
  | cons object objects ih =>
    obtain ⟨⟨verdict, hverdict⟩, hrest⟩ := forall_mem_cons.1 h
    obtain ⟨candidates, hcandidates, hobjects⟩ := ih hrest
    rw [areaCandidates, hverdict, hcandidates, filter_cons, hverdict]
    cases verdict with
    | false => exact ⟨_, rfl, hobjects⟩
    | true => exact ⟨_, rfl, congrArg _ hobjects⟩

variable (q c) in
def foundIn (now : Nat) (area : Area) (holds : GeoType → Except GeoError Bool)
    (idsIn : BoundingBox → List String) : List Object :=
  match q.areaEnvelope area with
  | .error _ => []
  | .ok bounds => (c.visibleObjects now false (idsIn bounds)).filter fun object =>
    isTrue (holds object.geo)

theorem Coherent.areaQuery_answers (h : c.Coherent lib) (hq : SoundQuery q areas) (ctx : Ctx)
    {area : Area}
    {test : lib.Geometry → lib.Geometry → Bool} (hholds : holds = area.test areas test)
    {locate : BoundingBox → List IndexedEntry}
    (hlocate : ∀ bounds, (locate bounds).Subperm c.spatialIndex.tree) (allowClip : Bool) :
    AnswersOrFails q lib c (c.foundIn q ctx.nowMs area holds
        fun bounds => (locate bounds).map IndexedEntry.id)
      (c.areaQuery q ctx lib area holds
        (fun bounds => (locate bounds).map IndexedEntry.id) · allowClip) := by
  refine .bind fun bounds hbounds => .inr ?_
  have hbounds : q.areaEnvelope area = .ok bounds := by
    cases henvelope : q.areaEnvelope area <;> rw [henvelope] at hbounds <;> cases hbounds
    rfl
  have hdecided : ∀ object ∈ ((locate bounds).map IndexedEntry.id).filterMap
      (fun id => c.objects[id]?), ∃ verdict, holds object.geo = .ok verdict := by
    rw [hholds]
    exact h.stored.decided hq hbounds (fun _ hentry => (hlocate bounds).subset hentry) test
  have hvisible : ∀ object ∈ c.visibleObjects ctx.nowMs false
      ((locate bounds).map IndexedEntry.id), ∃ verdict, holds object.geo = .ok verdict :=
    fun object hobject => hdecided object (mem_of_mem_filter hobject)
  obtain ⟨candidates, hcandidates, hobjects⟩ := exists_areaCandidates hvisible
  have hmapped : ∀ object ∈ ((locate bounds).map IndexedEntry.id).filterMap
      (fun id => c.objects[id]?), ∃ verdict,
        (holds object.geo).mapError CoreError.geo = .ok verdict := by
    intro object hobject
    obtain ⟨verdict, hverdict⟩ := hdecided object hobject
    exact ⟨verdict, by rw [hverdict]; rfl⟩
  have hvisit := fun n => fastIdsFromSpatialVisit_eq ctx.nowMs n hmapped
  have hsame : ∀ verdict : Except GeoError Bool,
      isTrue (verdict.mapError CoreError.geo) = isTrue verdict := by
    intro verdict
    cases verdict <;> rfl
  simp only [hsame] at hvisit
  rw [foundIn, hbounds]
  refine ⟨fun _ hobject => h.getElem_of_visible (mem_of_mem_filter hobject),
    (h.nodup (hlocate bounds)).sublist ((filter_sublist.trans filter_sublist).map _),
    fun options _ hfast => ?_,
    fun options _ hfast => ⟨candidates, some area, allowClip, .of_eq hobjects, ?_⟩⟩
  · rw [if_pos hfast, hvisit]
    rfl
  · rw [hfast, if_neg Bool.false_ne_true, hcandidates]
    rfl

end Collection

namespace Query

def spatial : Query → Bool
  | .scan => false
  | .search => false
  | _ => true

end Query

namespace Db

variable {q : QueryLib} {lib : Lib} {areas : AreaLib lib.toGeoLib}

/-- The unexpired objects of a collection that a query is about, whatever its filters. -/
def found (q : QueryLib) (db : Db) (ctx : Ctx) (c : Collection) : Query → List Object
  | .nearby lat lon meters =>
    c.visibleObjects ctx.nowMs false (c.spatialIndex.nearbyIds q lat lon meters)
  | .within area => match db.resolveArea q ctx area with
    | .error _ => []
    | .ok area => c.foundIn q ctx.nowMs area (q.containsGeo area)
      (c.spatialIndex.withinCandidateIds q)
  | .intersects area => match db.resolveArea q ctx area with
    | .error _ => []
    | .ok area => c.foundIn q ctx.nowMs area (q.intersectsGeo area)
      (c.spatialIndex.intersectingCandidateIds q)
  | .scan => c.visibleObjects ctx.nowMs false c.objects.keys
  | .search => c.visibleObjects ctx.nowMs true c.objects.keys

/-- The objects that a request matches: those it is about for which its filters hold. -/
def matching (q : QueryLib) (db : Db) (ctx : Ctx) (c : Collection) (options : SearchOptions)
    (query : Query) : List Object :=
  (db.found q ctx c query).filter (accepts q.toFilterLib options)

end Db

/-- The request as the general path answers it, on a page of the given size. -/
def onOnePage (options : SearchOptions) (size : Nat) : SearchOptions :=
  { options with limit := size, includeCount := true }

def Sampled (limit : Nat) : Except Panic (Except CoreError SearchResults) →
    Except Panic (Except CoreError SearchResults) → Prop
  | .ok (.ok results), .ok (.ok all) =>
    (results.results.map SearchItem.id).Nodup ∧
      results.results.map SearchItem.id ⊆ all.results.map SearchItem.id ∧
      results.results.length = min limit all.results.length
  | .ok (.error e), .ok (.error e') => e = e'
  | _, _ => False

def Omits (objects : List Object) (results : SearchResults) : Prop :=
  ∃ object ∈ objects, object.id ∉ results.results.map SearchItem.id

/-- The answer lists the first of the given objects, in some order, and does not say whether there
are more. -/
structure FirstFew (limit : Nat) (hits : List Object) (results : SearchResults) : Prop where
  cursor : results.cursor = 0
  ids : ∃ ordered : List Object, ordered.Perm hits ∧
    results.results.map SearchItem.id = (ordered.take limit).map Object.id

theorem FirstFew.omits_iff {limit : Nat} {hits : List Object} {results : SearchResults}
    (h : FirstFew limit hits results) (hnodup : (hits.map Object.id).Nodup) :
    ¬ Omits hits results ↔ hits.length ≤ limit := by
  obtain ⟨ordered, hperm, hids⟩ := h.ids
  rw [Omits, hids]
  push Not
  constructor
  · intro hall
    have hsub : hits.map Object.id ⊆ (ordered.take limit).map Object.id := by
      intro id hid
      obtain ⟨object, hobject, rfl⟩ := mem_map.1 hid
      exact hall object hobject
    have hle := (subperm_of_subset hnodup hsub).length_le
    rw [length_map, length_map, length_take] at hle
    exact hle.trans (min_le_left _ _)
  · intro hlimit object hobject
    rw [take_of_length_le (hperm.length_eq.trans_le hlimit)]
    exact mem_map_of_mem (hperm.mem_iff.2 hobject)

/-- All of the objects fit into the answer, and SCAN and SEARCH look at all of them: at those that
the first filter finds which the indexes serve. -/
def Fit (q : QueryLib) (c : Collection) (options : SearchOptions) (query : Query)
    (objects : List Object) : Prop :=
  objects.length ≤ max options.limit 1 ∧ (query.spatial = true ∨
    ∀ filter, (fieldFilters options).find? (·.served q) = some filter →
      ∀ object ∈ objects, c.foundBy q filter object = true)

section Limited

variable {q : QueryLib} {lib : Lib} {areas : AreaLib lib.toGeoLib} {options : SearchOptions}
  {results : SearchResults}

theorem Collection.Answers.firstFew {c : Collection} {found : List Object}
    {answer : SearchOptions → Except CoreError SearchResults}
    (h : Collection.Answers q lib.toGeoLib c found answer)
    (hvalid : options.validate q.toFilterLib = .ok ()) (hfast : options.fastLimitedIds)
    (hanswer : answer options = .ok results) :
    FirstFew (max options.limit 1) (found.filter (accepts q.toFilterLib options)) results := by
  cases hspatial : Collection.spatialFast options with
  | true =>
    rw [h.fast options hvalid hspatial] at hanswer
    cases hanswer
    rw [Collection.spatialFast, hfast, Bool.true_and, Bool.not_eq_true'] at hspatial
    rw [filter_eq_self.2 fun object _ =>
      (SearchOptions.accepts_of_hasFilters (f := q.toFilterLib) hspatial).2 object]
    exact ⟨rfl, found, .refl _, map_map⟩
  | false =>
    obtain ⟨candidates, area, clip, hperm, hgeneral⟩ := h.general options hvalid hspatial
    rw [hgeneral, applySearchOptions, if_pos hfast, applyFastLimitedIds, firstMatches_eq hvalid]
      at hanswer
    cases hanswer
    have hfilter : (candidates.filter fun c => accepts q.toFilterLib options c.object).map
        SearchCandidate.object = (candidates.map SearchCandidate.object).filter
          (accepts q.toFilterLib options) := by
      rw [filter_map]
      rfl
    refine ⟨rfl, _, (hperm.filter _), ?_⟩
    rw [← hfilter, ← map_take, map_map]
    exact map_map

theorem Collection.Fielded.scan_omits_iff {c : Collection} (h : c.Fielded)
    (hvalid : options.validate q.toFilterLib = .ok ()) (hfast : options.fastLimitedIds)
    {ctx : Ctx} {stringOnly : Bool}
    (hanswer : c.scan q lib.toGeoLib ctx options stringOnly = .ok (.ok results)) {query : Query}
    (hquery : query.spatial = false) :
    results.cursor = 0 ∧ (¬ Omits (c.accepted q ctx.nowMs options stringOnly) results ↔
      Fit q c options query (c.accepted q ctx.nowMs options stringOnly)) := by
  rcases h.scan_fast lib.toGeoLib hvalid hfast ctx stringOnly with
    ⟨-, herr⟩ | ⟨-, _, hscan, ids, rfl, hids, hlisted⟩
  · cases herr.symm.trans hanswer
  cases hscan.symm.trans hanswer
  have hnodup : ((c.accepted q ctx.nowMs options stringOnly).map Object.id).Nodup :=
    h.nodup_acceptedAmong Std.ExtTreeMap.nodup_keys
  -- once every accepted object is looked at, only the limit matters
  have hfew : (∀ object ∈ c.accepted q ctx.nowMs options stringOnly, object.id ∈ ids) →
      FirstFew (max options.limit 1) (c.accepted q ctx.nowMs options stringOnly)
        (idResults (((c.acceptedAmong q ctx.nowMs options stringOnly ids).take
          (pageLimit options)).map fun o => idItem (bare o))) :=
    fun hmem => ⟨rfl, _, (h.acceptedAmong_perm_iff hids).2 hmem, map_map⟩
  refine ⟨rfl, fun hall => ?_, fun ⟨hlimit, hfound⟩ => ?_⟩
  · have hmem : ∀ object ∈ c.accepted q ctx.nowMs options stringOnly, object.id ∈ ids := by
      intro object hobject
      have hid := not_exists.1 hall object
      rw [not_and_not_right, idResults, map_map] at hid
      obtain ⟨found, hfound, heq⟩ := mem_map.1 (hid hobject)
      rw [← heq]
      exact (h.mem_acceptedAmong_iff.1 (mem_of_mem_take hfound)).2
    exact ⟨((hfew hmem).omits_iff hnodup).1 hall, .inr fun filter hfilter object hobject =>
      (hlisted object hobject).1 (hmem object hobject) filter hfilter⟩
  · rw [hquery] at hfound
    refine ((hfew fun object hobject => ?_).omits_iff hnodup).2 hlimit
    exact (hlisted object hobject).2 fun filter hfilter =>
      (hfound.resolve_left Bool.false_ne_true) filter hfilter object hobject

variable (hq : SoundQuery q areas) (hvisits : VisitsOnce q) {db : Db} {collection : String}
  {cell : VersionedCollection} (hcell : db.existingCollectionHandle collection = .ok cell)
  (hcoherent : cell.collection.Coherent lib.toGeoLib)

include hq hcell hcoherent

theorem Db.queryIn_coherent (ctx : Ctx) (build : Build) (options : SearchOptions)
    (query : Query) : db.queryIn q lib ctx build collection options query =
      db.query q lib ctx collection options query := by
  refine Db.queryIn_eq hq db ctx collection (fun found hfound => ?_) options query build
  cases hcell.symm.trans hfound
  exact hcoherent.stored

include hvisits

theorem Db.query_spatial (ctx : Ctx) {query : Query} (hspatial : query.spatial) :
    ∃ answer, (∀ options, db.query q lib ctx collection options query = .ok (answer options)) ∧
      Collection.AnswersOrFails q lib.toGeoLib cell.collection
        (db.found q ctx cell.collection query) answer := by
  cases query with
  | nearby lat lon meters =>
    refine ⟨_, fun _ => rfl, .bind fun _ _ => .bind fun _ _ => .validated (.bind fun found h => ?_)⟩
    cases hcell.symm.trans h
    exact .inr (hcoherent.nearby_answers hvisits ctx lat lon meters)
  | within area =>
    refine ⟨_, fun _ => rfl, .bind fun _ _ => .validated (.bind fun area harea =>
      .bind fun found h => ?_)⟩
    cases hcell.symm.trans h
    rw [Db.found, harea]
    exact hcoherent.areaQuery_answers hq ctx (funext (hq.containsGeo area))
      (hvisits.locateInEnvelope _) false
  | intersects area =>
    refine ⟨_, fun _ => rfl, .bind fun _ _ => .validated (.bind fun area harea =>
      .bind fun found h => ?_)⟩
    cases hcell.symm.trans h
    rw [Db.found, harea]
    exact hcoherent.areaQuery_answers hq ctx (funext (hq.intersectsGeo area))
      (hvisits.locateInEnvelopeIntersecting _) true
  | scan => cases hspatial
  | search => cases hspatial

/-- Without filters, the ids that NEARBY, WITHIN and INTERSECTS return in limited-ids mode are some
of those that the general path returns on one page, as many as the limit allows. -/
theorem limited_ids_sample_general_path (ctx : Ctx) {query : Query}
    (hspatial : query.spatial) (hfast : options.fastLimitedIds)
    (hfilters : options.hasFilters = false) {size : Nat}
    (hsize : cell.collection.objects.size ≤ size) (build : Build) :
    Sampled (max options.limit 1)
      (db.queryIn q lib ctx build collection options query)
      (db.queryIn q lib ctx build collection (onOnePage options size) query) := by
  have hvalid := (SearchOptions.accepts_of_hasFilters (f := q.toFilterLib) hfilters).1
  obtain ⟨houtput, hcursor⟩ : options.output = .ids ∧ options.cursor = 0 := by
    simp only [SearchOptions.fastLimitedIds, Bool.and_eq_true, decide_eq_true_eq,
      beq_iff_eq] at hfast
    exact ⟨hfast.1.2, hfast.1.1.1.2⟩
  obtain ⟨answer, hanswer, ⟨e, he⟩ | hanswers⟩ :=
    Db.query_spatial hq hvisits hcell hcoherent ctx hspatial
  all_goals
    rw [Db.queryIn_coherent hq hcell hcoherent, Db.queryIn_coherent hq hcell hcoherent, hanswer,
      hanswer]
  · rw [he options hvalid, he (onOnePage options size) hvalid]
    rfl
  · obtain ⟨all, hall, hids⟩ :=
      hanswers.page (onOnePage options size) rfl hfilters houtput hcursor hsize
    rw [hall, hanswers.fast options hvalid (by rw [Collection.spatialFast, hfast, hfilters]; rfl)]
    have hlength := hids.length_eq
    rw [length_map, length_map] at hlength
    refine ⟨?_, ?_, ?_⟩
    · rw [idResults, map_map]
      exact hanswers.distinct.sublist ((take_sublist _ _).map _)
    · rw [idResults, map_map]
      exact fun id hid => hids.mem_iff.2 ((take_sublist _ _).map _ |>.subset hid)
    · rw [idResults, length_map, length_take, hlength]
      rfl

/-- In limited-ids mode the cursor is always 0, so an answer that leaves out a matching object does
not tell. It leaves none out exactly if all of them fit. -/
theorem limited_ids_tell_iff (ctx : Ctx) (query : Query)
    (hvalid : options.validate q.toFilterLib = .ok ()) (hfast : options.fastLimitedIds)
    (build : Build)
    (hanswer : db.queryIn q lib ctx build collection options query = .ok (.ok results)) :
    (Omits (db.matching q ctx cell.collection options query) results → results.cursor ≠ 0) ↔
      Fit q cell.collection options query
        (db.matching q ctx cell.collection options query) := by
  rw [Db.queryIn_coherent hq hcell hcoherent] at hanswer
  suffices hsilent : results.cursor = 0 ∧
      (¬ Omits (db.matching q ctx cell.collection options query) results ↔
        Fit q cell.collection options query (db.matching q ctx cell.collection options query)) by
    rw [← hsilent.2, hsilent.1]
    simp
  cases hspatial : query.spatial with
  | true =>
    obtain ⟨answer, hquery, ⟨e, he⟩ | hanswers⟩ :=
      Db.query_spatial hq hvisits hcell hcoherent ctx hspatial
    all_goals rw [hquery] at hanswer
    · cases (he options hvalid).symm.trans (Except.ok.inj hanswer)
    · have hfew := hanswers.firstFew hvalid hfast (Except.ok.inj hanswer)
      refine ⟨hfew.cursor, (hfew.omits_iff ?_).trans (and_iff_left (.inl hspatial)).symm⟩
      exact hanswers.distinct.sublist (filter_sublist.map _)
  | false =>
    have hscan : ∀ stringOnly,
        db.scanObjects q lib ctx collection options stringOnly = .ok (.ok results) →
        cell.collection.scan q lib.toGeoLib ctx options stringOnly = .ok (.ok results) := by
      intro stringOnly h
      rw [Db.scanObjects, Db.scanChecked, hvalid, hcell] at h
      change (cell.collection.scan q lib.toGeoLib ctx options stringOnly).map _ = _ at h
      cases hscan : cell.collection.scan q lib.toGeoLib ctx options stringOnly with
      | error e => rw [hscan] at h; cases h
      | ok answer =>
        rw [hscan] at h
        cases answer <;> cases h
        rfl
    cases query with
    | scan => exact hcoherent.scan_omits_iff hvalid hfast (hscan false hanswer) hspatial
    | search => exact hcoherent.scan_omits_iff hvalid hfast (hscan true hanswer) hspatial
    | _ => cases hspatial

end Limited

namespace Parked

open Sample

def parked (id : String) : Object := { id, geo := origin, fields := ∅, expiresAt := none }

def parking : List CollectionOp := [.upsert (parked "crane"), .upsert (parked "truck")]

def yard : Collection :=
  ((({ name := "fleet" } : Collection).upsert blankLib.toFenceLib (parked "crane")).2.upsert
    blankLib.toFenceLib (parked "truck")).2

def yardDb : Db where
  storage := {}
  collections := (∅ : Std.ExtTreeMap String VersionedCollection).insert "fleet"
    { VersionedCollection.new "fleet" with collection := yard }

def limitedIds (limit : Nat) : SearchOptions :=
  { limit, nofields := true, includeCount := false, output := .ids }

theorem coherent_yard : yard.Coherent blankLib.toGeoLib := by
  have hrun : LatLng.Lib.runSteps (Collection.step blankLib.toFenceLib) parking { name := "fleet" } =
    some yard := rfl
  refine (Collection.mirrored_run (fun op hop geo hgeo bounds hbounds => ?_) hrun).coherent
  simp only [parking, mem_cons, not_mem_nil, or_false] at hop
  rcases hop with rfl | rfl <;> cases hgeo <;> cases hbounds <;> decide

theorem visitsOnce_parkedQuery : VisitsOnce parkedQuery :=
  ⟨fun _ _ => .refl _, fun _ _ => .refl _, fun _ _ => .refl _⟩

theorem yard_sampled :
    Sampled 1
      (yardDb.queryIn parkedQuery blankLib sampleCtx .serial "fleet" (limitedIds 1) around)
      (yardDb.queryIn parkedQuery blankLib sampleCtx .serial "fleet"
        (onOnePage (limitedIds 1) 2) around) :=
  @limited_ids_sample_general_path parkedQuery blankLib touching (limitedIds 1) sound_parkedQuery
    visitsOnce_parkedQuery yardDb "fleet" _ rfl coherent_yard sampleCtx around rfl rfl rfl 2
    (by decide +kernel) .serial

/-- The crane is in the area too, and the answer with the truck alone says that it is complete. -/
theorem crane_left_out : ∃ results,
    yardDb.queryIn parkedQuery blankLib sampleCtx .serial "fleet" (limitedIds 1) around =
      .ok (.ok results) ∧
    Omits (yardDb.matching parkedQuery sampleCtx yard (limitedIds 1) around) results ∧
    results.cursor = 0 := by
  refine ⟨_, rfl, ⟨parked "crane", ?_, by decide⟩, rfl⟩
  exact mem_cons_of_mem _ mem_cons_self

theorem nothing_left_out : ∃ results,
    yardDb.queryIn parkedQuery blankLib sampleCtx .serial "fleet" (limitedIds 2) around =
      .ok (.ok results) ∧
    (Omits (yardDb.matching parkedQuery sampleCtx yard (limitedIds 2) around) results →
      results.cursor ≠ 0) :=
  ⟨_, rfl, (@limited_ids_tell_iff parkedQuery blankLib touching (limitedIds 2) _ sound_parkedQuery
    visitsOnce_parkedQuery yardDb "fleet" _ rfl coherent_yard sampleCtx around rfl rfl .serial
    rfl).2 ⟨by decide +kernel, .inl rfl⟩⟩

end Parked

end LatLng.Core
