import LatLng.Core.Restore

/-! What a database means to its users: the objects of each collection and the channel and
hook definitions. Persisted commands act on this view on their own terms, and the replay
interpreter computes exactly that action. -/

namespace LatLng.Core

open Geo Geofence Storage Std List

abbrev Objects := ExtTreeMap String Object

structure View where
  collections : ExtTreeMap String Objects := ∅
  channels : ExtTreeMap String (Unit × GeofenceDef) := ∅
  hooks : ExtTreeMap String (String × GeofenceDef) := ∅

variable (lib : Lib)

def editGeo (edit : Json → Except GeoError Json) (object : Object) : Object :=
  match object.geo with
  | .geoJson json =>
    match edit json with
    | .ok edited => { object with geo := .geoJson edited }
    | .error _ => object
  | _ => object

namespace View

def get (v : View) (collection id : String) : Option Object :=
  v.collections[collection]?.bind fun objects => objects[id]?

def upsert (v : View) (collection : String) (object : Object) : View :=
  { v with
    collections := v.collections.insert collection
      ((v.collections[collection]?.getD ∅).insert object.id object) }

def update (v : View) (collection : String) (f : Objects → Objects) : View :=
  { v with collections := v.collections.modify collection f }

def rename (v : View) (collection newName : String) : View :=
  match v.collections[collection]? with
  | none => v
  | some objects => { v with collections := (v.collections.erase collection).insert newName objects }

def apply (now : Nat) (v : View) : Command → View
  | .set req => v.upsert req.collection (req.toObject now)
  | .setPersisted record => v.upsert record.collection record.toObject
  | .del collection id => v.update collection (·.erase id)
  | .dropCollection collection => { v with collections := v.collections.erase collection }
  | .rename collection newName => v.rename collection newName
  | .createCollection collection =>
    { v with collections := v.collections.insert collection (v.collections[collection]?.getD ∅) }
  | .fset collection id fields _ => v.update collection fun objects => objects.modify id fun o =>
    { o with fields := applyFieldUpdates o.fields fields }
  | .expire collection id seconds => v.update collection fun objects => objects.modify id fun o =>
    { o with expiresAt := some (deadlineAfter now seconds) }
  | .expireAt collection id deadline => v.update collection fun objects =>
    objects.modify id fun o => { o with expiresAt := some deadline }
  | .persist collection id => v.update collection fun objects => objects.modify id fun o =>
    { o with expiresAt := none }
  | .jset collection id path value raw => v.update collection fun objects => objects.modify id
    (editGeo fun json => setJsonPath json path (jsetPayload lib value raw))
  | .jdel collection id path => v.update collection fun objects => objects.modify id
    (editGeo fun json => (deleteJsonPath json path).map Prod.fst)
  | .setHook name endpoint d =>
    if (ensureGeofenceEvaluable d).isOk then { v with hooks := v.hooks.insert name (endpoint, d) }
    else v
  | .delHook name => { v with hooks := v.hooks.erase name }
  | .pdelHook pattern =>
    { v with hooks := v.hooks.filter fun name _ => !lib.globMatch pattern name }
  | .setChannel name d =>
    if (ensureGeofenceEvaluable d).isOk then { v with channels := v.channels.insert name ((), d) }
    else v
  | .delChannel name => { v with channels := v.channels.erase name }
  | .pdelChannel pattern =>
    { v with channels := v.channels.filter fun name _ => !lib.globMatch pattern name }
  | .flushDb => {}

def applyRecord (now : Nat) (v : View) : LogRecord → View
  | .command command => v.apply lib now command
  | _ => v

end View

def Command.geometry? : Command → Option GeoType
  | .set req => some req.object
  | .setPersisted record => some record.object
  | _ => none

def Command.Replayable (command : Command) : Prop :=
  ∀ geo ∈ command.geometry?, geo.indexable lib.toGeoLib = true

def LogRecord.Replayable : LogRecord → Prop
  | .command c => c.Replayable lib
  | _ => True

def Store.view (s : Store) : View where
  collections := s.collections.map fun _ cell => cell.objects
  channels := s.geofences.channels.defs
  hooks := s.geofences.hooks.defs

variable {lib}

namespace Store

variable (s : Store)

theorem collections_view (name : String) :
    s.view.collections[name]? = s.collections[name]?.map VersionedCollection.objects := by
  simp [view]

theorem objects_ensureCollectionCell (name : String) :
    (s.ensureCollectionCell name).objects = s.view.collections[name]?.getD ∅ := by
  rw [ensureCollectionCell, collections_view]
  cases s.collections[name]? <;> rfl

theorem view_setCell (name : String) (cell : VersionedCollection) :
    (s.setCell name cell).view =
      { s.view with collections := s.view.collections.insert name cell.objects } := by
  rw [view, view, setCell, Lib.map_insert]

theorem view_updateCell (name : String) {f : VersionedCollection → VersionedCollection}
    {g : Objects → Objects} (h : ∀ v, (f v).objects = g v.objects) :
    (s.updateCell name f).view = s.view.update name g := by
  rw [view, view, updateCell, View.update, Lib.map_modify _ _ _ h]

theorem view_renameCell (name newName : String) :
    (s.renameCell name newName).view = s.view.rename name newName := by
  rw [renameCell, View.rename, collections_view]
  cases s.collections[name]? with
  | none => rfl
  | some cell =>
    dsimp only [Option.map_some, view]
    rw [Lib.map_insert, Lib.map_erase]
    rfl

theorem view_clear : s.clear.view = {} := by
  simp [view, clear, Registry.clearAll, FenceTable.defs]

variable (lib) in
theorem replayUpsert_cases (name : String) (object : Object) :
    (object.geo.indexable lib.toGeoLib ∧ (s.replayUpsert lib name object).1 = .ok () ∧
      (s.replayUpsert lib name object).2.view = s.view.upsert name object) ∨
    (object.geo.indexable lib.toGeoLib = false ∧
      ∃ e, (s.replayUpsert lib name object).1 = .error (.index e)) := by
  rw [replayUpsert]
  rcases (s.ensureCollectionCell name).collection.upsert_cases lib.toFenceLib object with
    ⟨hidx, hok, hobj⟩ | ⟨hidx, e, herr, -⟩
  · rcases h : (s.ensureCollectionCell name).collection.upsert lib.toFenceLib object with ⟨r, c⟩
    rw [h] at hok hobj
    dsimp only at hok hobj
    subst hok
    refine .inl ⟨hidx, rfl, ?_⟩
    dsimp only
    rw [view_setCell, View.upsert, ← objects_ensureCollectionCell]
    exact congrArg (fun o => { s.view with collections := s.view.collections.insert name o }) hobj
  · rcases h : (s.ensureCollectionCell name).collection.upsert lib.toFenceLib object with ⟨r, c⟩
    rw [h] at herr
    dsimp only at herr
    subst herr
    exact .inr ⟨hidx, e, rfl⟩

end Store

theorem objects_updated {v : VersionedCollection} {id : String} {f : Object → Object}
    {r : Bool × Collection} (hfound : r.1 = v.collection.objects[id]?.isSome)
    (hobjects : r.2.objects = v.collection.objects.modify id f) :
    (match r with
      | (true, c) => v.bump c
      | (false, _) => v).objects = v.objects.modify id f := by
  obtain ⟨_ | _, c⟩ := r
  · -- nothing is stored under the id, so the update is the identity
    have hnone : v.collection.objects[id]? = none :=
      Option.isNone_iff_eq_none.1 (Option.isSome_eq_false_iff.1 hfound.symm)
    exact (Lib.modify_eq_self hnone f).symm
  · exact hobjects

theorem objects_setExpiry (v : VersionedCollection) (id : String) (expiresAt : Option Nat) :
    (v.setExpiry id expiresAt).objects = v.objects.modify id fun o => { o with expiresAt } :=
  objects_updated (v.collection.setExpiry_fst id expiresAt) (Collection.objects_setExpiry ..)

theorem objects_insertFields (v : VersionedCollection) (id : String) (fields : List FieldEntry) :
    (match v.collection.insertFields id fields with
      | (true, c) => v.bump c
      | (false, _) => v).objects =
    v.objects.modify id fun o => { o with fields := applyFieldUpdates o.fields fields } :=
  objects_updated (v.collection.insertFields_fst id fields) (Collection.objects_insertFields ..)

theorem objects_replayEdit (v : VersionedCollection) (id : String)
    (edit : Json → Except GeoError Json) :
    (v.replayEdit lib id edit).objects = v.objects.modify id (editGeo edit) := by
  rw [VersionedCollection.objects, VersionedCollection.objects, VersionedCollection.replayEdit]
  cases h : v.collection.objects[id]? with
  | none => exact (Lib.modify_eq_self h _).symm
  | some object =>
    rw [← Lib.insert_eq_modify h, editGeo]
    have hself : v.collection.objects = v.collection.objects.insert id object := by
      rw [Lib.insert_eq_modify h fun o => o]
      apply ExtTreeMap.ext_getElem?
      intro other
      by_cases ho : id = other <;> simp [ExtTreeMap.getElem?_modify, ho]
    obtain ⟨oid, geo, fields, expiresAt⟩ := object
    cases geo with
    | geoJson json =>
      dsimp only [VersionedCollection.bump]
      rw [Collection.objects_reindexSpatial, Collection.setGeo]
      cases edit json <;> rfl
    | _ => exact hself

variable (lib) in
/-- A command that can be replayed acts on the view, and any other fails. -/
def Store.Replays (now : Nat) (s : Store) (command : Command) : Prop :=
  (command.Replayable lib ∧ (applyPersistedCommandToState lib now s command).1 = .ok () ∧
    (applyPersistedCommandToState lib now s command).2.view = s.view.apply lib now command) ∨
  (¬ command.Replayable lib ∧
    ∃ e, (applyPersistedCommandToState lib now s command).1 = .error e)

variable (lib) in
theorem applyPersistedCommandToState_cases (now : Nat) (s : Store) (command : Command) :
    s.Replays lib now command := by
  have hupsert : ∀ (command : Command) (geo : GeoType) (name : String) (object : Object),
      command.geometry? = some geo → object.geo = geo →
      applyPersistedCommandToState lib now s command = s.replayUpsert lib name object →
      s.view.apply lib now command = s.view.upsert name object → s.Replays lib now command := by
    intro command geo name object hg hobj happly hview
    rw [Store.Replays, happly, hview, Command.Replayable, hg]
    rcases s.replayUpsert_cases lib name object with ⟨hidx, hok, hv⟩ | ⟨hidx, e, he⟩
    · rw [hobj] at hidx
      exact .inl ⟨by simpa using hidx, hok, hv⟩
    · rw [hobj] at hidx
      exact .inr ⟨by simp [hidx], _, he⟩
  have hplain : command.geometry? = none → command.Replayable lib := by
    intro h geo hg
    rw [h] at hg
    cases hg
  cases command with
  | set req | setPersisted record => exact hupsert _ _ _ _ rfl rfl rfl rfl
  | del collection id =>
    refine .inl ⟨hplain rfl, rfl, s.view_updateCell collection fun v => ?_⟩
    exact v.collection.objects_remove id
  | dropCollection collection =>
    refine .inl ⟨hplain rfl, rfl, ?_⟩
    simp only [applyPersistedCommandToState, View.apply, Store.view, Lib.map_erase]
  | rename collection newName =>
    exact .inl ⟨hplain rfl, rfl, s.view_renameCell collection newName⟩
  | fset collection id fields xx =>
    exact .inl ⟨hplain rfl, rfl, s.view_updateCell collection fun v =>
      objects_insertFields v id fields⟩
  | expire collection id seconds | persist collection id | expireAt collection id deadline =>
    exact .inl ⟨hplain rfl, rfl, s.view_updateCell collection fun v => objects_setExpiry v id _⟩
  | jset collection id path value raw | jdel collection id path =>
    exact .inl ⟨hplain rfl, rfl, s.view_updateCell collection fun v => objects_replayEdit v id _⟩
  | createCollection collection =>
    refine .inl ⟨hplain rfl, rfl, ?_⟩
    simp only [applyPersistedCommandToState, View.apply, Store.view_setCell,
      Store.objects_ensureCollectionCell]
  | setHook name endpoint d =>
    refine .inl ⟨hplain rfl, ?_⟩
    simp only [applyPersistedCommandToState, View.apply]
    cases ensureGeofenceEvaluable d with
    | error e => exact ⟨rfl, rfl⟩
    | ok u => exact ⟨rfl, by simp [Store.view, Registry.setHook, Except.isOk, Except.toBool]⟩
  | delHook name | pdelHook pattern | delChannel name | pdelChannel pattern =>
    exact .inl ⟨hplain rfl, rfl, by simp [applyPersistedCommandToState, View.apply, Store.view]⟩
  | setChannel name d =>
    refine .inl ⟨hplain rfl, ?_⟩
    simp only [applyPersistedCommandToState, View.apply]
    cases ensureGeofenceEvaluable d with
    | error e => exact ⟨rfl, rfl⟩
    | ok u => exact ⟨rfl, by simp [Store.view, Registry.setChannel, Except.isOk, Except.toBool]⟩
  | flushDb => exact .inl ⟨hplain rfl, rfl, s.view_clear⟩

/-! ### Replaying a log -/

def Holds (lib : Lib) (entries : List StorageEntry) (records : List LogRecord) : Prop :=
  entries.map (fun entry => decodeLogRecord lib entry.command) = records.map .ok

variable {entries : List StorageEntry} {records : List LogRecord}

theorem Holds.append {entries' : List StorageEntry} {records' : List LogRecord}
    (h : Holds lib entries records) (h' : Holds lib entries' records') :
    Holds lib (entries ++ entries') (records ++ records') := by
  rw [Holds, map_append, map_append, h, h']

theorem Holds.cons {record : LogRecord} (h : Holds lib entries (record :: records)) :
    ∃ entry rest, entries = entry :: rest ∧ decodeLogRecord lib entry.command = .ok record ∧
      Holds lib rest records := by
  cases entries with
  | nil => cases h
  | cons entry rest => exact ⟨entry, rest, rfl, (cons.inj h).1, (cons.inj h).2⟩

variable {entries : List StorageEntry} {records : List LogRecord}

theorem Holds.exists_record (h : Holds lib entries records) {entry : StorageEntry}
    (he : entry ∈ entries) :
    ∃ record ∈ records, decodeLogRecord lib entry.command = .ok record := by
  have hmem : decodeLogRecord lib entry.command ∈ records.map Except.ok := by
    rw [← h]
    exact mem_map_of_mem he
  obtain ⟨record, hrecord, hdecode⟩ := mem_map.1 hmem
  exact ⟨record, hrecord, hdecode.symm⟩

theorem Holds.exists_entry (h : Holds lib entries records) {record : LogRecord}
    (hr : record ∈ records) :
    ∃ entry ∈ entries, decodeLogRecord lib entry.command = .ok record := by
  have hmem : Except.ok record ∈ entries.map fun entry => decodeLogRecord lib entry.command := by
    rw [h]
    exact mem_map_of_mem hr
  exact mem_map.1 hmem

theorem applyPersistedEntries_ok (now : Nat) (h : Holds lib entries records)
    (hreplay : ∀ record ∈ records, record.Replayable lib) (s : Store) :
    (applyPersistedEntries lib now s entries).1 = .ok () ∧
      (applyPersistedEntries lib now s entries).2.view =
        records.foldl (View.applyRecord lib now) s.view := by
  induction entries generalizing records s with
  | nil =>
    cases records with
    | nil => exact ⟨rfl, rfl⟩
    | cons r rs => cases h
  | cons entry entries ih =>
    cases records with
    | nil => cases h
    | cons record records =>
      have hdecode : decodeLogRecord lib entry.command = .ok record := (cons.inj h).1
      have hrest : Holds lib entries records := (cons.inj h).2
      have htail : ∀ r ∈ records, r.Replayable lib := fun r hr =>
        hreplay r (mem_cons_of_mem _ hr)
      have hhead := hreplay record mem_cons_self
      rw [applyPersistedEntries, applyPersistedEntryToState, hdecode, foldl_cons]
      cases record with
      | command c =>
        dsimp only
        rcases applyPersistedCommandToState_cases lib now s c with
          ⟨-, hok, hview⟩ | ⟨hno, -⟩
        · rcases hs : applyPersistedCommandToState lib now s c with ⟨r, s'⟩
          rw [hs] at hok hview
          subst hok
          rw [View.applyRecord, ← hview]
          exact ih hrest htail s'
        · exact absurd hhead hno
      | _ => exact ih hrest htail s

theorem replayLog_ok (now : Nat) (hpositive : ∀ entry ∈ entries, 0 < entry.sequence)
    (h : Holds lib entries records) (hreplay : ∀ record ∈ records, record.Replayable lib) :
    ∃ s, replayLog lib now entries = .ok s ∧
      s.view = records.foldl (View.applyRecord lib now) {} := by
  have hfilter : (entries.filter fun entry => 0 < entry.sequence) = entries :=
    filter_eq_self.2 fun entry he => decide_eq_true (hpositive entry he)
  obtain ⟨hok, hview⟩ := applyPersistedEntries_ok now h hreplay ({} : Store)
  rw [replayLog, hfilter]
  rcases hs : applyPersistedEntries lib now {} entries with ⟨r, s⟩
  rw [hs] at hok hview
  subst hok
  have hempty : (({} : Store).view) = {} := by simp [Store.view, FenceTable.defs]
  exact ⟨s, rfl, by rw [hview, hempty]⟩

theorem replayLog_eq_ok {now : Nat} {s : Store} (h : replayLog lib now entries = .ok s) :
    applyPersistedEntries lib now {} (entries.filter fun entry => 0 < entry.sequence) =
      (.ok (), s) := by
  rw [replayLog] at h
  split at h
  · cases h
  next hreplay =>
    cases h
    exact hreplay

theorem build_eq_ok {ctx : Ctx} {storage : LogStore} {config : Config} {db : Db}
    (h : (build lib ctx storage config).1 = .ok db) :
    ∃ s, replayLog lib ctx.nowMs storage.entries = .ok s ∧ db = { s.gcCollections ctx.nowMs with
      storage := storage.fault.2, config
      nextSequence := lastSequence (storage.entries.filter fun entry => 0 < entry.sequence) } := by
  have hstorage := storage.snd_read (.ok : List StorageEntry → Except StorageError _)
  rw [build] at h
  split at h
  · cases h
  next entries storage' hread =>
    rw [hread] at hstorage
    obtain ⟨-, ⟨e, he⟩ | hentries⟩ := LogStore.read_cases hread
    · cases he
    cases hentries
    cases hstorage
    split at h
    · cases h
    next s hreplay =>
      cases h
      exact ⟨s, hreplay, rfl⟩

end LatLng.Core
