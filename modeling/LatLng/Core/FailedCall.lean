import LatLng.Core.Commit
import LatLng.Core.Sample

/-! What a call leaves behind when it fails although the backend did its part. -/

namespace LatLng.Core

open Geo Geofence Index Storage Std

variable {lib : Lib}

/-- The log, the objects of every collection with their indexes, and the geofences are the
same. A collection that does not exist counts as an empty one. -/
structure Db.Unchanged (db db' : Db) : Prop where
  log : db'.storage.entries = db.storage.entries
  collections : ∀ c : String,
    (db'.ensureCollectionCell c).collection = (db.ensureCollectionCell c).collection
  geofences : db'.geofences = db.geofences

def Request.Stops (lib : Lib) (db : Db) (ctx : Ctx) (request : Request) : Prop :=
  ∃ result, request.plan lib db ctx = .done result

def Aim.indexable (lib : Lib) : Aim → Bool
  | .plain => true
  | .store _ _ geo => geo.indexable lib.toGeoLib
  | .edit _ _ geo => geo.indexable lib.toGeoLib

/-- There is nothing that a failed attempt to store the geometry could change: the object
stored under the id is in no index, and an edit leaves its geometry as it is. -/
def Aim.Traceless (s : Store) : Aim → Prop
  | .plain => True
  | .store c id _ =>
    (s.ensureCollectionCell c).collection.unindex id = (s.ensureCollectionCell c).collection
  | .edit c id geo =>
    ((s.ensureCollectionCell c).collection.objects[id]?).map Object.geo = some geo ∧
      (s.ensureCollectionCell c).collection.spatialIndex.remove id =
        (s.ensureCollectionCell c).collection.spatialIndex

/-! ### A change that fails half-way -/

theorem Collection.replaceGeo_of_not_indexable {c : Collection} {id : String} {o : Object}
    {geo : GeoType} (ho : c.objects[id]? = some o) (hgeo : geo.indexable lib.toGeoLib = false) :
    (c.replaceGeo lib.toFenceLib id geo).2 =
      { c.setGeo id o geo with spatialIndex := c.spatialIndex.remove id } := by
  have hok := @SpatialIndex.insert_isOk lib.toGeoLib (c.spatialIndex.remove id) id geo
  rw [Collection.replaceGeo, ho]
  dsimp only [Collection.setGeo]
  cases hi : (c.spatialIndex.remove id).insert lib.toGeoLib id geo with
  | error e => rfl
  | ok index =>
    rw [hi, hgeo] at hok
    cases hok

theorem Collection.replaced_eq_iff {c : Collection} {id : String} {o : Object} {geo : GeoType}
    (ho : c.objects[id]? = some o) :
    ({ c.setGeo id o geo with spatialIndex := c.spatialIndex.remove id } : Collection) = c ↔
      c.objects[id]?.map Object.geo = some geo ∧
        c.spatialIndex.remove id = c.spatialIndex := by
  rw [ho]
  constructor
  · intro h
    have hobjects : (c.objects.insert id { o with geo })[id]? = some o := by
      rw [← ho]
      exact congrArg (fun c : Collection => c.objects[id]?) h
    rw [ExtTreeMap.getElem?_insert_self] at hobjects
    refine ⟨?_, congrArg Collection.spatialIndex h⟩
    rw [← Option.some.inj hobjects]
    rfl
  · rintro ⟨hgeo, hindex⟩
    have hself : c.objects.insert id { o with geo } = c.objects := by
      have : ({ o with geo } : Object) = o := by
        rw [← Option.some.inj hgeo]
      rw [this]
      apply ExtTreeMap.ext_getElem?
      intro other
      rw [ExtTreeMap.getElem?_insert]
      split
      next heq => rw [← LawfulEqCmp.eq_of_compare heq, ho]
      · rfl
    rw [Collection.setGeo, hself, hindex]

theorem Intends.fails {s : Store} {aim : Aim} {commands : List Command} {effect : Effect}
    (h : Intends lib s.view aim commands effect) (hidx : effect.indexable lib = false) :
    commands ≠ [] ∧ aim.indexable lib = false ∧ ∃ c cell,
      (effect.apply lib s).2 = s.setCell c cell ∧
      (cell.collection = (s.ensureCollectionCell c).collection ↔ aim.Traceless s) := by
  have hedit : ∀ {c id : String} {o : Object} {geo : GeoType} {clearTtl : Bool},
      s.view.get c id = some o → geo.indexable lib.toGeoLib = false →
      ∃ cell, ((Effect.mutate c (.replaceGeo id geo clearTtl)).apply lib s).2 = s.setCell c cell ∧
        (cell.collection = (s.ensureCollectionCell c).collection ↔
          (Aim.edit c id geo).Traceless s) := by
    intro c id o geo clearTtl hget hgeo
    have ho : (s.ensureCollectionCell c).collection.objects[id]? = some o := by
      obtain ⟨objects, hc, hid⟩ := Option.bind_eq_some_iff.1 hget
      have := s.objects_ensureCollectionCell c
      rw [hc] at this
      rw [← hid]
      exact congrArg (·[id]?) this
    have hcell := Collection.replaceGeo_of_not_indexable ho hgeo
    rcases (s.ensureCollectionCell c).collection.replaceGeo_cases lib.toFenceLib id geo with
      ⟨hyes, -⟩ | ⟨-, -, e, he⟩
    · rw [hyes (by rw [ho]; rfl)] at hgeo
      cases hgeo
    · rw [Effect.apply, Mutation.apply]
      rcases hr : (s.ensureCollectionCell c).collection.replaceGeo lib.toFenceLib id geo with ⟨r, c'⟩
      rw [hr] at he hcell
      subst he hcell
      exact ⟨_, rfl, Collection.replaced_eq_iff ho⟩
  cases h with
  | set record haim =>
    subst haim
    refine ⟨List.cons_ne_nil _ _, hidx, record.collection, ?_⟩
    rcases (s.ensureCollectionCell record.collection).collection.upsert_cases lib.toFenceLib
        record.toObject with ⟨hyes, -⟩ | ⟨-, e, he, hc⟩
    · cases hidx.symm.trans hyes
    · rw [Effect.apply, Mutation.apply]
      rcases hr : (s.ensureCollectionCell record.collection).collection.upsert lib.toFenceLib
        record.toObject with ⟨r, c'⟩
      rw [hr] at he hc
      subst he hc
      exact ⟨_, rfl, Iff.rfl⟩
  | jset hget hgeo hed haim | jdel hget hgeo hed haim =>
    subst haim
    exact ⟨List.cons_ne_nil _ _, hidx, _, hedit hget hidx⟩
  | _ => cases hidx

theorem Db.unchanged_setCell_iff {db db' : Db} {c : String} {cell : VersionedCollection}
    (hstore : db'.toStore = db.setCell c cell) :
    db.Unchanged db' ↔ db'.storage.entries = db.storage.entries ∧
      cell.collection = (db.ensureCollectionCell c).collection := by
  have hcell : ∀ other : String, db'.ensureCollectionCell other =
      if c = other then cell else db.ensureCollectionCell other := by
    intro other
    rw [hstore, Store.ensureCollectionCell, Store.setCell, ExtTreeMap.getElem?_insert]
    by_cases h : c = other
    · simp [h]
    · simp [h, Store.ensureCollectionCell]
  constructor
  · intro h
    refine ⟨h.log, ?_⟩
    rw [← h.collections c, hcell, if_pos rfl]
  · rintro ⟨hlog, hsame⟩
    refine ⟨hlog, fun other => ?_, ?_⟩
    · rw [hcell]
      split
      next h => rw [← h, hsame]
      · rfl
    · rw [hstore]
      rfl

/-! ### The call -/

/-- A call that fails although the backend reported no error leaves everything as it was,
unless it got past its checks with a geometry that cannot be indexed and that had something to
replace: then its record is already in the log, or the old object is out of the indexes. -/
theorem failed_call_unchanged_iff
    (hjson : ∀ record, ∃ payload, lib.codec.toJson record = .ok payload)
    {db : Db} {ctx : Ctx} {request : Request} {e : CoreError}
    (herr : (db.perform lib ctx request).1 = .error e) (hbackend : ∀ e', e ≠ .storage e') :
    db.Unchanged (db.perform lib ctx request).2 ↔
      request.Stops lib db ctx ∨ (request.aim lib db).indexable lib ∨
        (db.storage.storesCommandLog = false ∧ (request.aim lib db).Traceless db.toStore) := by
  have hplan := request.plan_intended lib db ctx
  rw [Db.perform] at herr ⊢
  cases hp : request.plan lib db ctx with
  | done result =>
    refine iff_of_true ?_ (.inl ⟨result, hp⟩)
    exact ⟨rfl, fun _ => rfl, rfl⟩
  | write w =>
    rw [hp] at hplan herr
    have hstops : ¬ request.Stops lib db ctx := by
      rintro ⟨result, hdone⟩
      rw [hp] at hdone
      cases hdone
    rw [Db.finish] at herr ⊢
    rcases db.commit_cases lib ctx w with ⟨e', he', -, hpersist⟩ | ⟨db', hpers, hcommit⟩
    · -- the batch was refused, which only the backend does
      obtain ⟨e'', rfl⟩ := Db.persist_error hjson hpersist
      rw [he'] at herr
      cases herr
      exact absurd rfl (hbackend e'')
    rw [hcommit] at herr ⊢
    cases hidx : w.effect.indexable lib with
    | true =>
      obtain ⟨answer, hok, -⟩ := hplan.ok hidx 0
      rw [hok] at herr
      cases herr
    | false =>
      obtain ⟨e', happly⟩ := hplan.error hidx
      obtain ⟨hcommands, haim, c, cell, hcell, htrace⟩ := hplan.intends.fails hidx
      rw [happly, @Db.unchanged_setCell_iff db _ c cell hcell, htrace]
      simp only [hstops, haim, Bool.false_eq_true, false_or]
      refine and_congr_left fun _ => ?_
      cases hstores : db.storage.storesCommandLog with
      | false =>
        rcases hpers with ⟨-, hun⟩ | ⟨hyes, -⟩
        · exact iff_of_true hun.log.entries rfl
        · rw [hstores] at hyes
          cases hyes
      | true => exact iff_of_false (hpers.log_ne hstores hcommands) (fun h => by cases h)

open Sample in
theorem failed_jset_unchanged :
    let db := (Db.perform blankLib { storage := {} } sampleCtx (setIdle "fleet" "truck")).2
    let jset := Request.jset "fleet" "truck" "speed" "1" false
    (db.getObject "fleet" "truck").isSome = true ∧
      (db.perform blankLib sampleCtx jset).1 =
        .error (.invalid "JSET requires a GeoJSON object") ∧
      db.Unchanged (db.perform blankLib sampleCtx jset).2 := by
  intro db jset
  refine ⟨rfl, rfl, (@failed_call_unchanged_iff blankLib (fun _ => ⟨[], rfl⟩) db sampleCtx jset _
    rfl fun e' h => ?_).2 (.inl ⟨_, rfl⟩)⟩
  cases h

open Sample in
/-- SET of a geohash with a character outside the alphabet: the call fails with an index error,
and its record stays in the log. -/
theorem failed_set_lost_logged :
    (Db.perform sampleLib { storage := {} } sampleCtx (setLost "fleet" "truck")).1 =
        .error (.index (.geo .invalidGeohash)) ∧
      ¬ Db.Unchanged { storage := {} }
        (Db.perform sampleLib { storage := {} } sampleCtx (setLost "fleet" "truck")).2 := by
  refine ⟨rfl, fun h => ?_⟩
  cases h.log

end LatLng.Core
