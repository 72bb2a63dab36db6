import LatLng.Core.Db

/-! Replay of the log: the interpreter of persisted commands, the removal of expired
objects, and building a database from what a backend holds. -/

namespace LatLng.Core

open Geo Geofence Storage

variable (lib : Lib)

def ensureGeofenceEvaluable (d : GeofenceDef) : Except CoreError Unit :=
  let rejected := "reference areas are not supported in hooks or channels; use a GeoJSON, bounds, or circle area instead"
  match d.query with
  | .within (.reference _ _) _ => .error (.invalid rejected)
  | .intersects (.reference _ _) _ => .error (.invalid rejected)
  | _ => .ok ()

def jsetPayload (value : String) (raw : Bool) : Json :=
  if raw then (lib.parseJson value).getD (.str value) else .str value

namespace VersionedCollection

def setExpiry (v : VersionedCollection) (id : String) (expiresAt : Option Nat) :
    VersionedCollection :=
  match v.collection.setExpiry id expiresAt with
  | (true, c) => v.bump c
  | (false, _) => v

/-- Edits a stored GeoJSON document in place. An edit that fails leaves the document as it
is, and the entry is taken as applied. -/
def replayEdit (v : VersionedCollection) (id : String) (edit : Json → Except GeoError Json) :
    VersionedCollection :=
  match v.collection.objects[id]? with
  | none => v
  | some object =>
    match object.geo with
    | .geoJson json =>
      let json := match edit json with
        | .ok edited => edited
        | .error _ => json
      v.bump ((v.collection.setGeo id object (.geoJson json)).reindexSpatial lib.toFenceLib id)
    | _ => v

def gc (now : Nat) (v : VersionedCollection) : VersionedCollection :=
  let expired := v.collection.dueExpirations now (2 ^ 64 - 1)
  if expired.isEmpty then v
  else v.bump (expired.foldl (fun c id => (c.remove id).2) v.collection)

end VersionedCollection

namespace Store

def ensureCollectionCell (s : Store) (name : String) : VersionedCollection :=
  s.collections[name]?.getD (.new name)

def setCell (s : Store) (name : String) (cell : VersionedCollection) : Store :=
  { s with collections := s.collections.insert name cell }

def updateCell (s : Store) (name : String) (f : VersionedCollection → VersionedCollection) :
    Store :=
  { s with collections := s.collections.modify name f }

def renameCell (s : Store) (name newName : String) : Store :=
  match s.collections[name]? with
  | none => s
  | some cell =>
    { s with
      collections := (s.collections.erase name).insert newName
        (cell.bump { cell.collection with name := newName }) }

def replayUpsert (s : Store) (name : String) (object : Object) : Except CoreError Unit × Store :=
  let cell := s.ensureCollectionCell name
  match cell.collection.upsert lib.toFenceLib object with
  | (.ok (), c) => (.ok (), s.setCell name (cell.bump c))
  | (.error e, c) => (.error e, s.setCell name { cell with collection := c })

def clear (s : Store) : Store := { collections := ∅, geofences := s.geofences.clearAll }

def gcCollections (s : Store) (now : Nat) : Store :=
  { s with collections := s.collections.map fun _ cell => cell.gc now }

end Store

def SetRequest.toObject (now : Nat) (req : SetRequest) : Object where
  id := req.id
  geo := req.object
  fields := fieldEntriesToMap req.fields
  expiresAt := req.expireSeconds.map (deadlineAfter now)

def PersistedSetRecord.toObject (record : PersistedSetRecord) : Object where
  id := record.id
  geo := record.object
  fields := fieldEntriesToMap record.fields
  expiresAt := record.expiresAtMs

def applyPersistedCommandToState (now : Nat) (s : Store) : Command → Except CoreError Unit × Store
  | .set req => s.replayUpsert lib req.collection (req.toObject now)
  | .del collection id =>
    (.ok (), s.updateCell collection fun v => v.bump (v.collection.remove id).2)
  | .dropCollection collection => (.ok (), { s with collections := s.collections.erase collection })
  | .rename collection newName => (.ok (), s.renameCell collection newName)
  | .fset collection id fields _ =>
    (.ok (), s.updateCell collection fun v =>
      match v.collection.insertFields id fields with
      | (true, c) => v.bump c
      | (false, _) => v)
  | .expire collection id seconds =>
    (.ok (), s.updateCell collection fun v => v.setExpiry id (some (deadlineAfter now seconds)))
  | .setPersisted record => s.replayUpsert lib record.collection record.toObject
  | .expireAt collection id expiresAtMs =>
    (.ok (), s.updateCell collection fun v => v.setExpiry id (some expiresAtMs))
  | .createCollection collection => (.ok (), s.setCell collection (s.ensureCollectionCell collection))
  | .persist collection id => (.ok (), s.updateCell collection fun v => v.setExpiry id none)
  | .jset collection id path value raw =>
    (.ok (), s.updateCell collection fun v => v.replayEdit lib id
      fun json => setJsonPath json path (jsetPayload lib value raw))
  | .jdel collection id path =>
    (.ok (), s.updateCell collection fun v => v.replayEdit lib id
      fun json => (deleteJsonPath json path).map Prod.fst)
  | .setHook name endpoint d =>
    match ensureGeofenceEvaluable d with
    | .error _ => (.ok (), s)
    | .ok () => (.ok (), { s with geofences := s.geofences.setHook name endpoint d })
  | .delHook name => (.ok (), { s with geofences := (s.geofences.delHook name).1 })
  | .pdelHook pattern =>
    (.ok (), { s with geofences := (s.geofences.pdelHook lib.toFenceLib pattern).1 })
  | .setChannel name d =>
    match ensureGeofenceEvaluable d with
    | .error _ => (.ok (), s)
    | .ok () => (.ok (), { s with geofences := s.geofences.setChannel name d })
  | .delChannel name => (.ok (), { s with geofences := (s.geofences.delChannel name).1 })
  | .pdelChannel pattern =>
    (.ok (), { s with geofences := (s.geofences.pdelChannel lib.toFenceLib pattern).1 })
  | .flushDb => (.ok (), s.clear)

def applyPersistedEntryToState (now : Nat) (s : Store) (entry : StorageEntry) :
    Except CoreError Unit × Store :=
  match decodeLogRecord lib entry.command with
  | .error e => (.error e, s)
  | .ok (.command command) => applyPersistedCommandToState lib now s command
  | .ok _ => (.ok (), s)

def applyPersistedEntries (now : Nat) (s : Store) : List StorageEntry → Except CoreError Unit × Store
  | [] => (.ok (), s)
  | entry :: entries =>
    match applyPersistedEntryToState lib now s entry with
    | (.error e, s) => (.error e, s)
    | (.ok (), s) => applyPersistedEntries now s entries

def replayLog (now : Nat) (entries : List StorageEntry) : Except CoreError Store :=
  match applyPersistedEntries lib now {} (entries.filter fun entry => 0 < entry.sequence) with
  | (.error e, _) => .error e
  | (.ok (), s) => .ok s

/-- A failure of an entry reaches the caller as a storage error with the entry's message. -/
def build (ctx : Ctx) (storage : LogStore) (config : Config) : Except CoreError Db × LogStore :=
  match storage.read .ok with
  | (.error e, storage) => (.error (.storage e), storage)
  | (.ok entries, storage) =>
    match replayLog lib ctx.nowMs entries with
    | .error e => (.error (.storage (.message e.toText)), storage)
    | .ok s =>
      (.ok { s.gcCollections ctx.nowMs with
        storage, config
        nextSequence := lastSequence (entries.filter fun entry => 0 < entry.sequence) }, storage)

end LatLng.Core
