import LatLng.Core.Write

/-! The read sections of the commands. Each decides from the current state what the command
answers or writes; a local path that gives up in favour of the exclusive one is `none`. -/

namespace LatLng.Core

open Geo Geofence Index Storage

variable (lib : Lib)

namespace Db

def getObject (db : Db) (collection id : String) : Option Object :=
  db.collections[collection]?.bind fun cell => cell.objects[id]?

def existingCollectionHandle (db : Db) (collection : String) :
    Except CoreError VersionedCollection :=
  match db.collections[collection]? with
  | none => .error (.collectionNotFound collection)
  | some cell => .ok cell

def liveObjects (db : Db) (ctx : Ctx) (collection : String) : List Object :=
  match db.collections[collection]? with
  | none => []
  | some cell => ((ctx.order cell.objects.keys).filterMap fun id => cell.objects[id]?).filter
    fun object => !isExpired ctx.nowMs object

def planMutation (db : Db) (ctx : Ctx) (event : MutationEvent) : PreparedMutation :=
  db.geofences.prepareMutation lib.toFenceLib ctx.order event (db.liveObjects ctx)

def webhookRecordsForPrepared (db : Db) (ctx : Ctx) (prepared : PreparedMutation) :
    Except CoreError (List WebhookEnqueueRecord) :=
  (prepared.events.filter fun event => event.hook.isSome).mapM fun event =>
    let hookName := event.hook.getD ""
    match db.geofences.hooks.fences[hookName]? with
    | none => .error (.message s!"hook missing during enqueue: {hookName}")
    | some hook => .ok
      { jobId := "", event, endpoint := hook.endpoint, attemptsUsed := 0
        maxAttempts := min (db.config.webhookRetryCount + 1) (2 ^ 32 - 1)
        nextAttemptAtMs := ctx.nowMs }

def planEvent (db : Db) (ctx : Ctx) (event : MutationEvent) (command : Command) (effect : Effect)
    (version : Option Nat) (reply : Answer → Except CoreError Answer) : Plan :=
  let planned := db.planMutation lib ctx event
  match db.webhookRecordsForPrepared ctx planned with
  | .error e => .done (.error e)
  | .ok webhooks => .write
    { batch := .command command webhooks, effect, planned := [planned], version, reply }

def planRecord (command : Command) (effect : Effect) (version : Option Nat)
    (reply : Answer → Except CoreError Answer) : Plan :=
  .write { batch := .records [.command command], effect, planned := [], version, reply }

/-! ### SET -/

def setObject (ctx : Ctx) (req : SetRequest) (before : Option Object) : Object where
  id := req.id
  geo := req.object
  fields := mergedSetFields before req.fields
  expiresAt := req.expireSeconds.map (deadlineAfter ctx.nowMs)

def setRecord (req : SetRequest) (object : Object) : Command :=
  .setPersisted
    { collection := req.collection, id := req.id, object := req.object
      fields := fieldMapToEntries object.fields, expiresAtMs := object.expiresAt }

def planSet (db : Db) (ctx : Ctx) (req : SetRequest) (version : Option Nat) : Plan :=
  let before := db.getObject req.collection req.id
  match req.condition, before with
  | .nx, some _ => .done (.ok (.bool false))
  | .xx, none => .done (.ok (.bool false))
  | _, _ =>
    let object := setObject ctx req before
    db.planEvent lib ctx
      { command := .set, collection := req.collection, id := req.id, before
        after := some object, timestampNs := ctx.nowNs }
      (setRecord req object) (.mutate req.collection (.upsert object)) version
      fun _ => .ok (.bool true)

def isPoint : GeoType → Bool
  | .point _ _ _ => true
  | _ => false

def trySetLocal (db : Db) (ctx : Ctx) (req : SetRequest) : Option Plan :=
  match db.ensureWritable with
  | .error e => some (.done (.error e))
  | .ok () =>
    if db.geofences.requiresExclusiveRoamPath req.collection then none
    else match db.collections[req.collection]? with
      | none => none
      | some cell =>
        if !db.storage.storesCommandLog ∧ req.condition = .always ∧ req.expireSeconds = none ∧
            isPoint req.object ∧ !db.geofences.hasRelevantSideEffects req.collection then
          -- the object goes straight into the collection; one sequence number is used up
          let object :=
            { id := req.id, geo := req.object, expiresAt := none
              fields := mergedSetFields cell.objects[req.id]? req.fields }
          some (planRecord (setRecord req object) (.mutate req.collection (.upsert object)) none
            fun _ => .ok (.bool true))
        else some (db.planSet lib ctx req (some cell.version))

def setExclusive (db : Db) (ctx : Ctx) (req : SetRequest) : Plan :=
  match db.ensureWritable with
  | .error e => .done (.error e)
  | .ok () => db.planSet lib ctx req none

/-! ### DEL and FSET -/

def planDel (db : Db) (ctx : Ctx) (collection id : String) (before : Object)
    (version : Option Nat) : Plan :=
  db.planEvent lib ctx
    { command := .del, collection, id, before := some before, after := none
      timestampNs := ctx.nowNs }
    (.del collection id) (.mutate collection (.remove id)) version .ok

def tryDelLocal (db : Db) (ctx : Ctx) (collection id : String) : Option Plan :=
  match db.ensureWritable with
  | .error e => some (.done (.error e))
  | .ok () =>
    if db.geofences.requiresExclusiveRoamPath collection then none
    else match db.collections[collection]? with
      | none => some (.done (.ok (.bool false)))
      | some cell =>
        match cell.objects[id]? with
        | none => some (.done (.ok (.bool false)))
        | some before => some (db.planDel lib ctx collection id before (some cell.version))

def delExclusive (db : Db) (ctx : Ctx) (collection id : String) : Plan :=
  match db.ensureWritable with
  | .error e => .done (.error e)
  | .ok () =>
    match db.getObject collection id with
    | none => .done (.ok (.bool false))
    | some before => db.planDel lib ctx collection id before none

def fsetMissing (collection id : String) (xx : Bool) : Except CoreError Answer :=
  if xx then .ok (.bool false) else .error (.objectNotFound collection id)

def planFset (db : Db) (ctx : Ctx) (collection id : String) (fields : List FieldEntry) (xx : Bool)
    (cell : VersionedCollection) (version : Option Nat) : Plan :=
  match cell.objects[id]? with
  | none => .done (fsetMissing collection id xx)
  | some before =>
    let after := { before with fields := applyFieldUpdates before.fields fields }
    db.planEvent lib ctx
      { command := .fset, collection, id, before := some before, after := some after
        timestampNs := ctx.nowNs }
      (.fset collection id fields xx) (.mutate collection (.insertFields id fields)) version
      fun
      | .bool false => fsetMissing collection id xx
      | _ => .ok (.bool true)

def tryFsetLocal (db : Db) (ctx : Ctx) (collection id : String) (fields : List FieldEntry)
    (xx : Bool) : Option Plan :=
  match db.ensureWritable with
  | .error e => some (.done (.error e))
  | .ok () =>
    if db.geofences.requiresExclusiveRoamPath collection then none
    else match db.existingCollectionHandle collection with
      | .error e => some (.done (.error e))
      | .ok cell => some (db.planFset lib ctx collection id fields xx cell (some cell.version))

def fsetExclusive (db : Db) (ctx : Ctx) (collection id : String) (fields : List FieldEntry)
    (xx : Bool) : Plan :=
  match db.ensureWritable with
  | .error e => .done (.error e)
  | .ok () =>
    match db.existingCollectionHandle collection with
    | .error e => .done (.error e)
    | .ok cell => db.planFset lib ctx collection id fields xx cell none

/-! ### EXPIRE and PERSIST -/

def planExpiry (db : Db) (collection id : String) (expiresAt : Option Nat) (command : Command) :
    Plan :=
  match db.ensureWritable with
  | .error e => .done (.error e)
  | .ok () =>
    match db.existingCollectionHandle collection with
    | .error e => .done (.error e)
    | .ok cell =>
      match cell.objects[id]? with
      | none => .done (.error (.objectNotFound collection id))
      | some _ =>
        planRecord command (.mutate collection (.setExpiry id expiresAt)) (some cell.version) fun
        | .bool false => .error (.objectNotFound collection id)
        | _ => .ok .unit

def tryExpireLocal (db : Db) (ctx : Ctx) (collection id : String) (seconds : Nat) : Plan :=
  let expiresAtMs := deadlineAfter ctx.nowMs seconds
  db.planExpiry collection id (some expiresAtMs) (.expireAt collection id expiresAtMs)

def tryPersistLocal (db : Db) (collection id : String) : Plan :=
  db.planExpiry collection id none (.persist collection id)

/-! ### JSET and JDEL -/

/-- The edit is tried on a copy; the result must still be a geometry in range. -/
def editGeojsonLocal (db : Db) (collection id commandName : String)
    (edit : Json → Except GeoError (Json × Bool)) (command : Command)
    (answer : Bool → Answer) : Plan :=
  match db.ensureWritable with
  | .error e => .done (.error e)
  | .ok () =>
    match db.existingCollectionHandle collection with
    | .error e => .done (.error e)
    | .ok cell =>
      match cell.objects[id]? with
      | none => .done (.error (.objectNotFound collection id))
      | some object =>
        match object.geo with
        | .geoJson json =>
          match edit json with
          | .error e => .done (.error (.geo e))
          | .ok (json, changed) =>
            let edited := GeoType.geoJson json
            match edited.validate lib.toGeoLib, edited.toGeometry lib.toGeoLib with
            | .error e, _ => .done (.error (.geo e))
            | .ok (), .error e => .done (.error (.geo e))
            | .ok (), .ok _ =>
              let hadTtl := object.expiresAt.isSome
              .write
                { batch := .records (.command command ::
                    if hadTtl then [.command (.persist collection id)] else [])
                  effect := .mutate collection (.replaceGeo id edited hadTtl)
                  planned := []
                  version := some cell.version
                  reply := fun _ => .ok (answer changed) }
        | _ => .done (.error (.invalid s!"{commandName} requires a GeoJSON object"))

def tryJsetLocal (db : Db) (collection id path value : String) (raw : Bool) : Plan :=
  db.editGeojsonLocal lib collection id "JSET"
    (fun json => (setJsonPath json path (jsetPayload lib value raw)).map fun json => (json, true))
    (.jset collection id path value raw) fun _ => .unit

def jdelExclusive (db : Db) (collection id path : String) : Plan :=
  db.editGeojsonLocal lib collection id "JDEL" (fun json => deleteJsonPath json path)
    (.jdel collection id path) .bool

/-! ### Collections -/

def createCollection (db : Db) (collection : String) : Plan :=
  match db.ensureWritable with
  | .error e => .done (.error e)
  | .ok () =>
    match db.collections[collection]? with
    | some _ => .done (.ok (.bool false))
    | none => planRecord (.createCollection collection) (.createCollection collection) none .ok

def planEvents (db : Db) (ctx : Ctx) :
    List MutationEvent → Except CoreError (List PreparedMutation × List WebhookEnqueueRecord)
  | [] => .ok ([], [])
  | event :: events =>
    let planned := db.planMutation lib ctx event
    match db.webhookRecordsForPrepared ctx planned with
    | .error e => .error e
    | .ok webhooks =>
      match db.planEvents ctx events with
      | .error e => .error e
      | .ok (prepared, more) => .ok (planned :: prepared, webhooks ++ more)

def dropCollection (db : Db) (ctx : Ctx) (collection : String) : Plan :=
  match db.ensureWritable with
  | .error e => .done (.error e)
  | .ok () =>
    match db.collections[collection]? with
    | none => .done (.ok (.bool false))
    | some cell =>
      let objects := (ctx.order cell.objects.keys).filterMap fun id => cell.objects[id]?
      let events := objects.map fun object =>
        { command := .drop, collection, id := object.id, before := some object, after := none
          timestampNs := ctx.nowNs }
      match db.planEvents lib ctx events with
      | .error e => .done (.error e)
      | .ok (planned, webhooks) => .write
        { batch := .command (.dropCollection collection) webhooks
          effect := .dropCollection collection, planned, version := none, reply := .ok }

def renameInner (db : Db) (collection newName : String) (nxOnly : Bool)
    (answer : Answer → Answer) : Plan :=
  match db.ensureWritable with
  | .error e => .done (.error e)
  | .ok () =>
    if nxOnly && db.collections.contains newName then .done (.ok (answer (.bool false)))
    else match db.collections[collection]? with
      | none => .done (.error (.collectionNotFound collection))
      | some _ => planRecord (.rename collection newName) (.rename collection newName) none
        fun a => .ok (answer a)

/-! ### Channels and hooks -/

def validateGeofenceDef (d : GeofenceDef) : Except CoreError Unit := do
  ensureGeofenceEvaluable d
  match d.query with
  | .nearby lat lon meters options =>
    (validateLatLon lib.toGeoLib lat lon).mapError CoreError.geo
    (validateMeters lib.toGeoLib meters).mapError CoreError.geo
    (lib.validateOptions options).mapError CoreError.index
  | .within area options =>
    (area.validate lib.toGeoLib).mapError CoreError.geo
    (lib.validateOptions options).mapError CoreError.index
  | .intersects area options =>
    (area.validate lib.toGeoLib).mapError CoreError.geo
    (lib.validateOptions options).mapError CoreError.index
  | .roam _ _ meters options _ =>
    (validateMeters lib.toGeoLib meters).mapError CoreError.geo
    (lib.validateOptions options).mapError CoreError.index

/-- A fence command: its definition, if it has one, is checked before the gate is taken. -/
def planFence (db : Db) (check : Except CoreError Unit) (command : Command) (effect : Effect) :
    Plan :=
  match check with
  | .error e => .done (.error e)
  | .ok () =>
    match db.ensureWritable with
    | .error e => .done (.error e)
    | .ok () => planRecord command effect none .ok

def setchan (db : Db) (name : String) (d : GeofenceDef) : Plan :=
  db.planFence (validateGeofenceDef lib d) (.setChannel name d) (.setChannel name d)

def delchan (db : Db) (name : String) : Plan :=
  db.planFence (.ok ()) (.delChannel name) (.delChannel name)

def pdelchan (db : Db) (pattern : String) : Plan :=
  db.planFence (.ok ()) (.pdelChannel pattern) (.pdelChannel pattern)

def sethook (db : Db) (name endpoint : String) (d : GeofenceDef) : Plan :=
  db.planFence (validateGeofenceDef lib d) (.setHook name endpoint d) (.setHook name endpoint d)

def delhook (db : Db) (name : String) : Plan :=
  db.planFence (.ok ()) (.delHook name) (.delHook name)

def pdelhook (db : Db) (pattern : String) : Plan :=
  db.planFence (.ok ()) (.pdelHook pattern) (.pdelHook pattern)

end Db

/-! ### Requests -/

inductive Request where
  | set (req : SetRequest)
  | del (collection id : String)
  | fset (collection id : String) (fields : List FieldEntry) (xx : Bool)
  | expire (collection id : String) (seconds : Nat)
  | persist (collection id : String)
  | jset (collection id path value : String) (raw : Bool)
  | jdel (collection id path : String)
  | createCollection (collection : String)
  | dropCollection (collection : String)
  | rename (collection newName : String)
  | renamenx (collection newName : String)
  | setchan (name : String) (d : GeofenceDef)
  | delchan (name : String)
  | pdelchan (pattern : String)
  | sethook (name endpoint : String) (d : GeofenceDef)
  | delhook (name : String)
  | pdelhook (pattern : String)

/-- The read section under the shared gate; `none` asks for the exclusive one. -/
def Request.localPlan (db : Db) (ctx : Ctx) : Request → Option Plan
  | .set req =>
    match req.object.validate lib.toGeoLib with
    | .error e => some (.done (.error (.geo e)))
    | .ok () => db.trySetLocal lib ctx req
  | .del collection id => db.tryDelLocal lib ctx collection id
  | .fset collection id fields xx => db.tryFsetLocal lib ctx collection id fields xx
  | .expire collection id seconds => some (db.tryExpireLocal ctx collection id seconds)
  | .persist collection id => some (db.tryPersistLocal collection id)
  | .jset collection id path value raw => some (db.tryJsetLocal lib collection id path value raw)
  | .jdel collection id path => some (db.jdelExclusive lib collection id path)
  | _ => none

/-- The read section under the exclusive gate. The commands whose local path never gives up
do not get here. -/
def Request.exclusivePlan (db : Db) (ctx : Ctx) : Request → Plan
  | .set req => db.setExclusive lib ctx req
  | .del collection id => db.delExclusive lib ctx collection id
  | .fset collection id fields xx => db.fsetExclusive lib ctx collection id fields xx
  | .expire collection id seconds => db.tryExpireLocal ctx collection id seconds
  | .persist collection id => db.tryPersistLocal collection id
  | .jset collection id path value raw => db.tryJsetLocal lib collection id path value raw
  | .jdel collection id path => db.jdelExclusive lib collection id path
  | .createCollection collection => db.createCollection collection
  | .dropCollection collection => db.dropCollection lib ctx collection
  | .rename collection newName => db.renameInner collection newName false fun _ => .unit
  | .renamenx collection newName => db.renameInner collection newName true id
  | .setchan name d => db.setchan lib name d
  | .delchan name => db.delchan name
  | .pdelchan pattern => db.pdelchan pattern
  | .sethook name endpoint d => db.sethook lib name endpoint d
  | .delhook name => db.delhook name
  | .pdelhook pattern => db.pdelhook pattern

def Request.plan (db : Db) (ctx : Ctx) (request : Request) : Plan :=
  (request.localPlan lib db ctx).getD (request.exclusivePlan lib db ctx)

def Db.perform (db : Db) (ctx : Ctx) (request : Request) : Except CoreError Answer × Db :=
  db.finish lib ctx (request.plan lib db ctx)

end LatLng.Core
