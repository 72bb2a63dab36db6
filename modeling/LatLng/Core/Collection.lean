import LatLng.Geofence.Evaluate
import LatLng.Storage.Entry

/-! One collection: its objects, the spatial, field and expiry indexes, and the updates
that keep them together. An update that fails half-way returns the half-updated
collection with the error. -/

namespace LatLng.Core

open Geo Index Geofence Std ExtTreeMap

inductive CoreError where
  | geo (error : GeoError)
  | index (error : IndexError)
  | storage (error : Storage.StorageError)
  | collectionNotFound (collection : String)
  | objectNotFound (collection id : String)
  | readOnly
  | missingStorage
  | codec (message : String)
  | invalid (message : String)
  | message (text : String)

def geoErrorText : GeoError → String
  | .unsupportedGeoJson => "unsupported geojson structure"
  | .invalidGeohash => "invalid geohash"
  | .invalidQuadkey => "invalid quadkey"
  | .invalidJsonPath => "invalid json path"
  | .unresolvedReference => "reference area must be resolved by the caller"
  | .invalidGeometry message => s!"invalid geometry: {message}"
  | .invalidCoordinates message => s!"invalid coordinates: {message}"

def indexErrorText : IndexError → String
  | .geo error => geoErrorText error
  | .regex message => s!"invalid regex: {message}"
  | .unsupportedClip => "unsupported clip operation for this geometry"
  | .invalidExpression message => s!"invalid expression: {message}"

def storageErrorText : Storage.StorageError → String
  | .io message => s!"io error: {message}"
  | .codec message => s!"codec error: {message}"
  | .sequenceRegression expected actual =>
    s!"sequence regression: expected at least {expected}, got {actual}"
  | .closed => "backend is closed"
  | .unsupported operation => s!"unsupported operation: {operation}"
  | .message text => text

def CoreError.toText : CoreError → String
  | .geo error => geoErrorText error
  | .index error => indexErrorText error
  | .storage error => storageErrorText error
  | .collectionNotFound collection => s!"collection not found: {collection}"
  | .objectNotFound collection id => s!"object not found: {collection}/{id}"
  | .readOnly => "read-only mode is enabled"
  | .missingStorage => "builder is missing a storage backend"
  | .codec text => s!"invalid command payload: {text}"
  | .invalid text => text
  | .message text => text

structure FieldEntry where
  name : String
  value : FieldValue
deriving DecidableEq, Repr

def fieldEntriesToMap (entries : List FieldEntry) : FieldMap :=
  entries.foldl (fun fields e => fields.insert e.name e.value) ∅

def fieldMapToEntries (fields : FieldMap) : List FieldEntry :=
  fields.toList.map fun f => ⟨f.1, f.2⟩

/-- A number zero means that the field has no value. -/
def isZeroFieldValue : FieldValue → Bool
  | .number n => n.numEq F64.zero
  | _ => false

def applyFieldUpdates (fields : FieldMap) (updates : List FieldEntry) : FieldMap :=
  updates.foldl (fun fields e =>
    if isZeroFieldValue e.value then fields.erase e.name else fields.insert e.name e.value) fields

def mergedSetFields (existing : Option Object) (updates : List FieldEntry) : FieldMap :=
  applyFieldUpdates ((existing.map Object.fields).getD ∅) updates

theorem fieldEntriesToMap_fieldMapToEntries (fields : FieldMap) :
    fieldEntriesToMap (fieldMapToEntries fields) = fields := by
  rw [fieldEntriesToMap, fieldMapToEntries, List.foldl_map]
  exact Lib.foldl_insert_toList fields

/-! ### Field indexes -/

abbrev ValueIndex (κ : Type) (cmp : κ → κ → Ordering) :=
  ExtTreeMap String (ExtTreeMap κ (ExtTreeSet String) cmp)

section

variable {κ : Type} {cmp : κ → κ → Ordering} [TransCmp cmp]

def addIndexedId (indexes : ValueIndex κ cmp) (field : String) (value : κ) (id : String) :
    ValueIndex κ cmp :=
  let values := indexes[field]?.getD ∅
  indexes.insert field (values.insert value ((values[value]?.getD ∅).insert id))

def removeIndexedId (indexes : ValueIndex κ cmp) (field : String) (value : κ) (id : String) :
    ValueIndex κ cmp :=
  match indexes[field]? with
  | none => indexes
  | some values =>
    let values := match values[value]? with
      | none => values
      | some ids =>
        let ids := ids.erase id
        if ids.isEmpty then values.erase value else values.insert value ids
    if values.isEmpty then indexes.erase field else indexes.insert field values

end

structure FieldIndexes where
  numeric : ValueIndex F64 F64.totalCmp := ∅
  text : ValueIndex String compare := ∅

namespace FieldIndexes

def insertObject (indexes : FieldIndexes) (object : Object) : FieldIndexes :=
  object.fields.toList.foldl (fun indexes (field, value) =>
    match value with
    | .number n => { indexes with numeric := addIndexedId indexes.numeric field n object.id }
    | .text s => { indexes with text := addIndexedId indexes.text field s object.id }
    | .json s => { indexes with text := addIndexedId indexes.text field s object.id }) indexes

def removeObject (indexes : FieldIndexes) (object : Object) : FieldIndexes :=
  object.fields.toList.foldl (fun indexes (field, value) =>
    match value with
    | .number n => { indexes with numeric := removeIndexedId indexes.numeric field n object.id }
    | .text s => { indexes with text := removeIndexedId indexes.text field s object.id }
    | .json s => { indexes with text := removeIndexedId indexes.text field s object.id }) indexes

end FieldIndexes

/-! ### Collections -/

abbrev Expirations := ExtTreeSet (Nat × String) Lib.pairCmp

structure Collection where
  name : String
  objects : ExtTreeMap String Object := ∅
  spatialIndex : SpatialIndex := .new
  fieldIndexes : FieldIndexes := {}
  expirations : Expirations := ∅

def dropDeadline (expirations : Expirations) (deadline : Option Nat) (id : String) : Expirations :=
  match deadline with
  | some deadline => expirations.erase (deadline, id)
  | none => expirations

def noteDeadline (expirations : Expirations) (deadline : Option Nat) (id : String) : Expirations :=
  match deadline with
  | some deadline => expirations.insert (deadline, id)
  | none => expirations

def isExpired (now : Nat) (object : Object) : Bool :=
  match object.expiresAt with
  | some deadline => deadline ≤ now
  | none => false

variable (lib : FenceLib)

namespace Collection

/-- Takes the object stored under an id out of the indexes, before it is replaced. -/
def unindex (c : Collection) (id : String) : Collection :=
  let c := match c.objects[id]? with
    | some previous =>
      { c with
        fieldIndexes := c.fieldIndexes.removeObject previous
        expirations := dropDeadline c.expirations previous.expiresAt id }
    | none => c
  { c with spatialIndex := c.spatialIndex.remove id }

def upsert (c : Collection) (object : Object) : Except CoreError Unit × Collection :=
  let c := c.unindex object.id
  match c.spatialIndex.insert lib.toGeoLib object.id object.geo with
  | .error e => (.error (.index e), c)
  | .ok spatialIndex =>
    (.ok (), { c with
      spatialIndex
      fieldIndexes := c.fieldIndexes.insertObject object
      expirations := noteDeadline c.expirations object.expiresAt object.id
      objects := c.objects.insert object.id object })

def remove (c : Collection) (id : String) : Option Object × Collection :=
  let c := { c with spatialIndex := c.spatialIndex.remove id }
  match c.objects[id]? with
  | none => (none, c)
  | some object =>
    (some object, { c with
      objects := c.objects.erase id
      fieldIndexes := c.fieldIndexes.removeObject object
      expirations := dropDeadline c.expirations object.expiresAt object.id })

def reindexSpatial (c : Collection) (id : String) : Collection :=
  let c := { c with spatialIndex := c.spatialIndex.remove id }
  match c.objects[id]? with
  | none => c
  | some object =>
    match c.spatialIndex.insert lib.toGeoLib id object.geo with
    | .error _ => c
    | .ok spatialIndex => { c with spatialIndex }

def setGeo (c : Collection) (id : String) (object : Object) (geo : GeoType) : Collection :=
  { c with objects := c.objects.insert id { object with geo } }

def replaceGeo (c : Collection) (id : String) (geo : GeoType) :
    Except CoreError Bool × Collection :=
  match c.objects[id]? with
  | none => (.ok false, c)
  | some object =>
    let c := c.setGeo id object geo
    let c := { c with spatialIndex := c.spatialIndex.remove id }
    match c.spatialIndex.insert lib.toGeoLib id geo with
    | .error e => (.error (.index e), c)
    | .ok spatialIndex => (.ok true, { c with spatialIndex })

def setExpiry (c : Collection) (id : String) (expiresAt : Option Nat) : Bool × Collection :=
  match c.objects[id]? with
  | none => (false, c)
  | some object =>
    (true, { c with
      expirations := noteDeadline (dropDeadline c.expirations object.expiresAt id) expiresAt id
      objects := c.objects.insert id { object with expiresAt } })

def dueExpirations (c : Collection) (now max : Nat) : List String :=
  ((c.expirations.toList.takeWhile fun e => e.1 ≤ now).take max).map Prod.snd

def insertFields (c : Collection) (id : String) (fields : List FieldEntry) : Bool × Collection :=
  match c.objects[id]? with
  | none => (false, c)
  | some object =>
    let updated := { object with fields := applyFieldUpdates object.fields fields }
    (true, { c with
      fieldIndexes := (c.fieldIndexes.removeObject object).insertObject updated
      objects := c.objects.insert id updated })

end Collection

structure VersionedCollection where
  version : Nat
  collection : Collection

namespace VersionedCollection

def new (name : String) : VersionedCollection := ⟨0, { name }⟩

def bump (v : VersionedCollection) (c : Collection) : VersionedCollection := ⟨v.version + 1, c⟩

def objects (v : VersionedCollection) : ExtTreeMap String Object := v.collection.objects

end VersionedCollection

/-! ### What the updates do to the objects -/

namespace Collection

variable {lib} (c : Collection)

@[simp] theorem objects_unindex (id : String) : (c.unindex id).objects = c.objects := by
  rw [unindex]
  cases c.objects[id]? <;> rfl

variable (lib) in
theorem upsert_cases (object : Object) :
    (object.geo.indexable lib.toGeoLib ∧ (c.upsert lib object).1 = .ok () ∧
      (c.upsert lib object).2.objects = c.objects.insert object.id object) ∨
    (object.geo.indexable lib.toGeoLib = false ∧
      ∃ e, (c.upsert lib object).1 = .error (.index e) ∧
        (c.upsert lib object).2 = c.unindex object.id) := by
  have hok : ((c.unindex object.id).spatialIndex.insert lib.toGeoLib object.id object.geo).isOk =
      object.geo.indexable lib.toGeoLib := SpatialIndex.insert_isOk
  rw [upsert]
  cases h : (c.unindex object.id).spatialIndex.insert lib.toGeoLib object.id object.geo with
  | ok index =>
    rw [h] at hok
    exact .inl ⟨hok.symm, rfl, by simp⟩
  | error e =>
    rw [h] at hok
    exact .inr ⟨hok.symm, e, rfl, rfl⟩

@[simp] theorem remove_fst (id : String) : (c.remove id).1 = c.objects[id]? := by
  rw [remove]
  cases c.objects[id]? <;> rfl

@[simp] theorem objects_remove (id : String) :
    (c.remove id).2.objects = c.objects.erase id := by
  rw [remove]
  cases h : c.objects[id]? with
  | none => exact (Lib.erase_eq_self h).symm
  | some object => rfl

@[simp] theorem objects_reindexSpatial (id : String) :
    (c.reindexSpatial lib id).objects = c.objects := by
  rw [reindexSpatial]
  cases c.objects[id]? with
  | none => rfl
  | some object =>
    dsimp only
    split <;> rfl

@[simp] theorem objects_replaceGeo (id : String) (geo : GeoType) :
    (c.replaceGeo lib id geo).2.objects = c.objects.modify id fun o => { o with geo } := by
  rw [replaceGeo]
  cases h : c.objects[id]? with
  | none => exact (Lib.modify_eq_self h _).symm
  | some object =>
    dsimp only
    have := Lib.insert_eq_modify h fun o => { o with geo }
    split <;> exact this

variable (lib) in
theorem replaceGeo_cases (id : String) (geo : GeoType) :
    ((c.objects[id]?.isSome → geo.indexable lib.toGeoLib = true) ∧
      (c.replaceGeo lib id geo).1 = .ok (c.objects[id]?.isSome)) ∨
    (c.objects[id]?.isSome ∧ geo.indexable lib.toGeoLib = false ∧
      ∃ e, (c.replaceGeo lib id geo).1 = .error (.index e)) := by
  rw [replaceGeo]
  cases h : c.objects[id]? with
  | none => exact .inl ⟨fun hno => absurd hno Bool.false_ne_true, rfl⟩
  | some object =>
    have hok := @SpatialIndex.insert_isOk lib.toGeoLib (c.spatialIndex.remove id) id geo
    dsimp only [setGeo]
    cases hi : (c.spatialIndex.remove id).insert lib.toGeoLib id geo with
    | error e =>
      rw [hi] at hok
      exact .inr ⟨rfl, hok.symm, e, rfl⟩
    | ok index =>
      rw [hi] at hok
      exact .inl ⟨fun _ => hok.symm, rfl⟩

@[simp] theorem setExpiry_fst (id : String) (expiresAt : Option Nat) :
    (c.setExpiry id expiresAt).1 = c.objects[id]?.isSome := by
  rw [setExpiry]
  cases c.objects[id]? <;> rfl

@[simp] theorem objects_setExpiry (id : String) (expiresAt : Option Nat) :
    (c.setExpiry id expiresAt).2.objects = c.objects.modify id fun o => { o with expiresAt } := by
  rw [setExpiry]
  cases h : c.objects[id]? with
  | none => exact (Lib.modify_eq_self h _).symm
  | some object => exact Lib.insert_eq_modify h fun o => { o with expiresAt }

@[simp] theorem insertFields_fst (id : String) (fields : List FieldEntry) :
    (c.insertFields id fields).1 = c.objects[id]?.isSome := by
  rw [insertFields]
  cases c.objects[id]? <;> rfl

@[simp] theorem objects_insertFields (id : String) (fields : List FieldEntry) :
    (c.insertFields id fields).2.objects = c.objects.modify id fun o =>
      { o with fields := applyFieldUpdates o.fields fields } := by
  rw [insertFields]
  cases h : c.objects[id]? with
  | none => exact (Lib.modify_eq_self h _).symm
  | some object =>
    exact Lib.insert_eq_modify h fun o => { o with fields := applyFieldUpdates o.fields fields }

end Collection

/-! ### The expiry index lists only real deadlines -/

def deadlineOf (objects : ExtTreeMap String Object) (id : String) : Option Nat :=
  objects[id]?.bind Object.expiresAt

def Deadlines (objects : ExtTreeMap String Object) (expirations : Expirations) : Prop :=
  ∀ deadline id, (deadline, id) ∈ expirations → deadlineOf objects id = some deadline

variable {expirations : Expirations} {id other : String} {deadline : Nat}

theorem mem_noteDeadline {new : Option Nat} : (deadline, other) ∈ noteDeadline expirations new id ↔
      (new = some deadline ∧ id = other) ∨ (deadline, other) ∈ expirations := by
  cases new with
  | none => simp [noteDeadline]
  | some d => simp [noteDeadline, ExtTreeSet.mem_insert]

theorem mem_dropDeadline {old : Option Nat} : (deadline, other) ∈ dropDeadline expirations old id ↔
      ¬ (old = some deadline ∧ id = other) ∧ (deadline, other) ∈ expirations := by
  cases old with
  | none => simp [dropDeadline]
  | some d => simp [dropDeadline, ExtTreeSet.mem_erase]

theorem Deadlines.drop {objects : ExtTreeMap String Object} (h : Deadlines objects expirations)
    (hmem : (deadline, other) ∈ dropDeadline expirations (deadlineOf objects id) id) :
    id ≠ other ∧ deadlineOf objects other = some deadline := by
  obtain ⟨hne, hold⟩ := mem_dropDeadline.1 hmem
  refine ⟨?_, h _ _ hold⟩
  rintro rfl
  exact hne ⟨h _ _ hold, rfl⟩

theorem Deadlines.update {objects objects' : ExtTreeMap String Object}
    (h : Deadlines objects expirations)
    (hother : ∀ other, id ≠ other → objects'[other]? = objects[other]?) :
    Deadlines objects' (noteDeadline (dropDeadline expirations (deadlineOf objects id) id)
      (deadlineOf objects' id) id) := by
  intro deadline other hmem
  rcases mem_noteDeadline.1 hmem with ⟨hnew, rfl⟩ | hold
  · exact hnew
  · obtain ⟨hne, hd⟩ := h.drop hold
    rw [deadlineOf, hother other hne]
    exact hd

/-! ### What an update changes -/

def FieldIndexes.replace (indexes : FieldIndexes) (old new : Option Object) : FieldIndexes :=
  let indexes := old.elim indexes indexes.removeObject
  new.elim indexes indexes.insertObject

def refreshed (lib : GeoLib) (index : SpatialIndex) (id : String) (geo : Option GeoType) :
    SpatialIndex :=
  let index := index.remove id
  geo.elim index fun geo => (index.insert lib id geo).toOption.getD index

namespace Collection

/-- An update of one id. Every index either stays, and so does what it lists of the object, or
goes from the object before to the one after. -/
structure Changes (c : Collection) (id : String) (c' : Collection) : Prop where
  others : ∀ other, id ≠ other → c'.objects[other]? = c.objects[other]?
  ids : ∀ object, c'.objects[id]? = some object → object.id = id
  deadlines : (c'.expirations = c.expirations ∧
      deadlineOf c'.objects id = deadlineOf c.objects id) ∨
    c'.expirations = noteDeadline (dropDeadline c.expirations (deadlineOf c.objects id) id)
      (deadlineOf c'.objects id) id
  fields : (c'.fieldIndexes = c.fieldIndexes ∧
      c'.objects[id]?.map Object.fields = c.objects[id]?.map Object.fields) ∨
    c'.fieldIndexes = c.fieldIndexes.replace c.objects[id]? c'.objects[id]?

structure Reindexes (lib : GeoLib) (c : Collection) (id : String) (c' : Collection) : Prop
    extends c.Changes id c' where
  spatial : (c'.spatialIndex = c.spatialIndex ∧
      c'.objects[id]?.map Object.geo = c.objects[id]?.map Object.geo) ∨
    c'.spatialIndex = refreshed lib c.spatialIndex id (c'.objects[id]?.map Object.geo)

structure Keyed (c : Collection) : Prop where
  ids : ∀ id (object : Object), c.objects[id]? = some object → object.id = id
  deadlines : Deadlines c.objects c.expirations

variable {lib} {c : Collection}

theorem keyed_new (name : String) : ({ name } : Collection).Keyed := by
  refine ⟨?_, ?_⟩
  · intro id object h
    simp at h
  · intro deadline id h
    simp at h

theorem expirations_unindex (id : String) :
    (c.unindex id).expirations = dropDeadline c.expirations (deadlineOf c.objects id) id := by
  rw [unindex, deadlineOf]
  cases c.objects[id]? <;> rfl

theorem Keyed.unindex (h : c.Keyed) (id : String) : (c.unindex id).Keyed := by
  refine ⟨?_, ?_⟩
  · rw [objects_unindex]
    exact h.ids
  · intro deadline other hmem
    rw [expirations_unindex] at hmem
    rw [objects_unindex]
    exact (h.deadlines.drop hmem).2

theorem fieldIndexes_unindex (id : String) : (c.unindex id).fieldIndexes =
    c.objects[id]?.elim c.fieldIndexes c.fieldIndexes.removeObject := by
  rw [unindex]
  cases c.objects[id]? <;> rfl

theorem spatialIndex_unindex (id : String) :
    (c.unindex id).spatialIndex = c.spatialIndex.remove id := by
  rw [unindex]
  cases c.objects[id]? <;> rfl

variable (h : c.Keyed)

include h

theorem Keyed.change {c' : Collection} {id : String} (hc : c.Changes id c') : c'.Keyed := by
  refine ⟨fun other object ho => ?_, ?_⟩
  · by_cases hid : id = other
    · subst hid
      exact hc.ids object ho
    · rw [hc.others other hid] at ho
      exact h.ids other object ho
  · rcases hc.deadlines with ⟨hexp, hsame⟩ | hexp
    · intro deadline other hmem
      rw [hexp] at hmem
      by_cases hid : id = other
      · subst hid
        exact hsame.trans (h.deadlines deadline id hmem)
      · rw [deadlineOf, hc.others other hid]
        exact h.deadlines deadline other hmem
    · rw [hexp]
      exact h.deadlines.update hc.others

omit h in
theorem upsert_reindexes {object : Object} (hok : (c.upsert lib object).1 = .ok ()) :
    c.Reindexes lib.toGeoLib object.id (c.upsert lib object).2 := by
  rw [upsert] at hok ⊢
  split at hok
  · cases hok
  next index hinsert =>
    rw [spatialIndex_unindex] at hinsert
    rw [objects_unindex, expirations_unindex, fieldIndexes_unindex]
    have hself : (c.objects.insert object.id object)[object.id]? = some object := by simp
    refine ⟨⟨fun other hne => by simp [getElem?_insert, hne], ?_, .inr ?_, .inr ?_⟩,
      .inr ?_⟩
    · intro stored hs
      cases hself.symm.trans hs
      rfl
    · rw [deadlineOf, deadlineOf, hself]
      rfl
    · rw [hself]
      rfl
    · rw [hself, refreshed]
      simp [hinsert, Except.toOption]

theorem Reindexes.refl (id : String) : c.Reindexes lib.toGeoLib id c :=
  ⟨⟨fun _ _ => rfl, h.ids id, .inl ⟨rfl, rfl⟩, .inl ⟨rfl, rfl⟩⟩, .inl ⟨rfl, rfl⟩⟩

theorem remove_changes (id : String) : c.Changes id (c.remove id).2 := by
  have hgone : (c.remove id).2.objects[id]? = none := by simp
  refine ⟨fun other hne => by simp [getElem?_erase, hne], fun object ho => ?_, .inr ?_,
    .inr ?_⟩
  · cases hgone.symm.trans ho
  · rw [deadlineOf, deadlineOf, hgone, remove]
    cases ho : c.objects[id]? with
    | none => rfl
    | some object =>
      rw [← h.ids id object ho]
      rfl
  · rw [hgone, remove]
    cases c.objects[id]? <;> rfl

theorem remove_reindexes (id : String) : c.Reindexes lib.toGeoLib id (c.remove id).2 := by
  refine ⟨remove_changes h id, .inr ?_⟩
  rw [objects_remove, getElem?_erase_self, remove]
  cases c.objects[id]? <;> rfl

theorem ids_insert {id : String} {object object' : Object} (ho : c.objects[id]? = some object)
    (hid : object'.id = object.id) (stored : Object)
    (hs : (c.objects.insert id object')[id]? = some stored) : stored.id = id := by
  simp only [getElem?_insert_self, Option.some.injEq] at hs
  rw [← hs, hid]
  exact h.ids id object ho

theorem insertFields_reindexes (id : String) (fields : List FieldEntry) :
    c.Reindexes lib.toGeoLib id (c.insertFields id fields).2 := by
  rw [insertFields]
  cases ho : c.objects[id]? with
  | none => exact .refl h id
  | some object =>
    refine ⟨⟨fun other hne => by simp [getElem?_insert, hne], ids_insert h ho rfl,
      .inl ⟨rfl, ?_⟩, .inr ?_⟩, .inl ⟨rfl, ?_⟩⟩
    · simp [deadlineOf, ho]
    · simp [FieldIndexes.replace, ho]
    · simp [ho]

theorem setExpiry_reindexes (id : String) (expiresAt : Option Nat) :
    c.Reindexes lib.toGeoLib id (c.setExpiry id expiresAt).2 := by
  rw [setExpiry]
  cases ho : c.objects[id]? with
  | none => exact .refl h id
  | some object =>
    refine ⟨⟨fun other hne => by simp [getElem?_insert, hne], ids_insert h ho rfl, .inr ?_,
      .inl ⟨rfl, ?_⟩⟩, .inl ⟨rfl, ?_⟩⟩
    · simp [deadlineOf, ho]
    · simp [ho]
    · simp [ho]

omit h in
theorem reindexSpatial_eq (id : String) : c.reindexSpatial lib id = { c with
    spatialIndex := refreshed lib.toGeoLib c.spatialIndex id (c.objects[id]?.map Object.geo) } := by
  rw [reindexSpatial, refreshed]
  cases c.objects[id]? with
  | none => rfl
  | some object =>
    dsimp only [Option.map_some, Option.elim_some]
    cases (c.spatialIndex.remove id).insert lib.toGeoLib id object.geo <;> rfl

theorem reindexSpatial_reindexes (id : String) :
    c.Reindexes lib.toGeoLib id (c.reindexSpatial lib id) := by
  rw [reindexSpatial_eq]
  exact ⟨⟨fun _ _ => rfl, h.ids id, .inl ⟨rfl, rfl⟩, .inl ⟨rfl, rfl⟩⟩, .inr rfl⟩

theorem replayGeo_reindexes {id : String} {object : Object}
    (ho : c.objects[id]? = some object) (geo : GeoType) :
    c.Reindexes lib.toGeoLib id ((c.setGeo id object geo).reindexSpatial lib id) := by
  rw [reindexSpatial_eq, setGeo]
  refine ⟨⟨fun other hne => by simp [getElem?_insert, hne], ids_insert h ho rfl,
    .inl ⟨rfl, ?_⟩, .inl ⟨rfl, ?_⟩⟩, .inr rfl⟩
  · simp [deadlineOf, ho]
  · simp [ho]

theorem replaceGeo_reindexes (id : String) (geo : GeoType) :
    c.Reindexes lib.toGeoLib id (c.replaceGeo lib id geo).2 := by
  rw [replaceGeo]
  cases ho : c.objects[id]? with
  | none => exact .refl h id
  | some object =>
    have hreplay := @replayGeo_reindexes lib c h id object ho geo
    rw [reindexSpatial] at hreplay
    simp only [setGeo, getElem?_insert_self] at hreplay ⊢
    split <;> rename_i hinsert <;> rw [hinsert] at hreplay <;> exact hreplay

theorem Keyed.remove (id : String) : (c.remove id).2.Keyed :=
  h.change (remove_changes h id)

theorem Keyed.ids_sublist (keys : List String) :
    ((keys.filterMap fun id => c.objects[id]?).map Object.id).Sublist keys := by
  induction keys with
  | nil => exact List.Sublist.slnil
  | cons key keys ih =>
    rw [List.filterMap_cons]
    cases hobject : c.objects[key]? with
    | none => exact ih.cons key
    | some object =>
      rw [List.map_cons, h.ids key object hobject]
      exact ih.cons_cons key

theorem Keyed.expired_of_due {now max : Nat} {id : String} (hdue : id ∈ c.dueExpirations now max) :
    ∃ object, c.objects[id]? = some object ∧ isExpired now object = true := by
  obtain ⟨⟨deadline, id'⟩, hmem, rfl⟩ := List.mem_map.1 hdue
  have htake := List.mem_of_mem_take hmem
  have hdl := h.deadlines deadline id'
    (ExtTreeSet.mem_toList.1 ((List.takeWhile_sublist _).mem htake))
  have hle : deadline ≤ now := by simpa using List.mem_takeWhile_imp htake
  obtain ⟨object, ho, hexp⟩ := Option.bind_eq_some_iff.1 hdl
  exact ⟨object, ho, by simp [isExpired, hexp, hle]⟩

end Collection

end LatLng.Core
