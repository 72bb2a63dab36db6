import LatLng.Core.Commands

/-! How the plan of a command comes about: what was read, and what is to be logged and changed
for it. What is proved about plans is proved along these cases. -/

namespace LatLng.Core

open Geo Geofence Storage Db

/-! ### What is read -/

theorem Db.view_get (db : Db) (c id : String) : db.view.get c id = db.getObject c id := by
  rw [View.get, Store.collections_view, getObject]
  cases db.collections[c]? <;> rfl

theorem Db.collections_of_existing {db : Db} {c : String} {cell : VersionedCollection}
    (h : db.existingCollectionHandle c = .ok cell) : db.collections[c]? = some cell := by
  rw [existingCollectionHandle] at h
  split at h
  · cases h
  next hc =>
    cases h
    exact hc

theorem Db.getObject_of_cell {db : Db} {c id : String} {cell : VersionedCollection}
    (hc : db.collections[c]? = some cell) : db.getObject c id = cell.objects[id]? := by
  rw [getObject, hc]
  rfl

/-- Under the shared gate a write is planned for the version of the collection that was read. -/
def Db.ReadAt (db : Db) (shared : Bool) (c : String) (version : Option Nat) : Prop :=
  if shared then ∃ cell, db.collections[c]? = some cell ∧ version = some cell.version
  else version = none

def SetRequest.stops (req : SetRequest) (v : View) : Bool :=
  match req.condition, v.get req.collection req.id with
  | .nx, some _ => true
  | .xx, none => true
  | _, _ => false

def Request.Idle (db : Db) : Request → Prop
  | .set req => req.stops db.view = true
  | .del c id => db.getObject c id = none
  | .fset c id _ _ => db.getObject c id = none
  | .createCollection c => db.collections[c]?.isSome = true
  | .dropCollection c => db.collections[c]? = none
  | .renamenx _ newName => db.collections.contains newName = true
  | _ => False

/-! ### What is planned for it -/

def delEvent (ctx : Ctx) (collection id : String) (before : Object) : MutationEvent where
  command := .del
  collection := collection
  id := id
  before := some before
  after := none
  timestampNs := ctx.nowNs

def setEvent (db : Db) (ctx : Ctx) (req : SetRequest) : MutationEvent where
  command := .set
  collection := req.collection
  id := req.id
  before := db.getObject req.collection req.id
  after := some (Db.setObject ctx req (db.getObject req.collection req.id))
  timestampNs := ctx.nowNs

def fsetEvent (ctx : Ctx) (collection id : String) (fields : List FieldEntry) (before : Object) :
    MutationEvent where
  command := .fset
  collection := collection
  id := id
  before := some before
  after := some { before with fields := applyFieldUpdates before.fields fields }
  timestampNs := ctx.nowNs

inductive Request.Edit (db : Db) (ctx : Ctx) :
    Request → MutationEvent → Command → Mutation → (Answer → Except CoreError Answer) → Prop
  | set {req : SetRequest} {object : Object} (hgo : req.stops db.view = false)
      (hobject : Db.setObject ctx req (db.getObject req.collection req.id) = object) :
      Edit db ctx (.set req) (setEvent db ctx req) (Db.setRecord req object) (.upsert object)
        fun _ => .ok (.bool true)
  | del {c id : String} {before : Object} (hget : db.getObject c id = some before) :
      Edit db ctx (.del c id) (delEvent ctx c id before) (.del c id) (.remove id) .ok
  | fset {c id : String} {fields : List FieldEntry} {xx : Bool} {before : Object}
      {reply : Answer → Except CoreError Answer} (hget : db.getObject c id = some before)
      (hreply : reply (.bool true) = .ok (.bool true)) :
      Edit db ctx (.fset c id fields xx) (fsetEvent ctx c id fields before) (.fset c id fields xx)
        (.insertFields id fields) reply

inductive Request.Record (lib : Lib) (db : Db) (ctx : Ctx) :
    Request → Command → Effect → Option Nat → (Answer → Except CoreError Answer) → Prop
  | set {req : SetRequest} {object : Object}
      (hobject : Db.setObject ctx req (db.getObject req.collection req.id) = object)
      (halways : req.condition = .always) (hvolatile : db.storage.storesCommandLog = false)
      (hunseen : db.geofences.hasRelevantSideEffects req.collection = false) :
      Record lib db ctx (.set req) (Db.setRecord req object)
        (.mutate req.collection (.upsert object)) none fun _ => .ok (.bool true)
  | expire {c id : String} {seconds : Nat} {cell : VersionedCollection} {o : Object}
      {reply : Answer → Except CoreError Answer} (hc : db.collections[c]? = some cell)
      (ho : cell.objects[id]? = some o) (hreply : reply (.bool true) = .ok .unit) :
      Record lib db ctx (.expire c id seconds) (.expireAt c id (deadlineAfter ctx.nowMs seconds))
        (.mutate c (.setExpiry id (some (deadlineAfter ctx.nowMs seconds)))) (some cell.version)
        reply
  | persist {c id : String} {cell : VersionedCollection} {o : Object}
      {reply : Answer → Except CoreError Answer} (hc : db.collections[c]? = some cell)
      (ho : cell.objects[id]? = some o) (hreply : reply (.bool true) = .ok .unit) :
      Record lib db ctx (.persist c id) (.persist c id) (.mutate c (.setExpiry id none))
        (some cell.version) reply
  | createCollection {c : String} (hnone : db.collections[c]? = none) :
      Record lib db ctx (.createCollection c) (.createCollection c) (.createCollection c) none .ok
  | rename (c newName : String) :
      Record lib db ctx (.rename c newName) (.rename c newName) (.rename c newName) none
        fun _ => .ok .unit
  | renamenx (c : String) {newName : String} (hnew : db.collections.contains newName = false) :
      Record lib db ctx (.renamenx c newName) (.rename c newName) (.rename c newName) none
        fun a => .ok (id a)
  | setchan (name : String) {d : GeofenceDef} (hd : Db.validateGeofenceDef lib d = .ok ()) :
      Record lib db ctx (.setchan name d) (.setChannel name d) (.setChannel name d) none .ok
  | delchan (name : String) :
      Record lib db ctx (.delchan name) (.delChannel name) (.delChannel name) none .ok
  | pdelchan (pattern : String) :
      Record lib db ctx (.pdelchan pattern) (.pdelChannel pattern) (.pdelChannel pattern) none .ok
  | sethook (name endpoint : String) {d : GeofenceDef}
      (hd : Db.validateGeofenceDef lib d = .ok ()) :
      Record lib db ctx (.sethook name endpoint d) (.setHook name endpoint d)
        (.setHook name endpoint d) none .ok
  | delhook (name : String) :
      Record lib db ctx (.delhook name) (.delHook name) (.delHook name) none .ok
  | pdelhook (pattern : String) :
      Record lib db ctx (.pdelhook pattern) (.pdelHook pattern) (.pdelHook pattern) none .ok

inductive Request.JsonEdit (lib : Lib) :
    Request → String → String → (Json → Except GeoError (Json × Bool)) → Command → Prop
  | jset (c id path value : String) (raw : Bool) :
      JsonEdit lib (.jset c id path value raw) c id
        (fun json => (setJsonPath json path (jsetPayload lib value raw)).map fun json => (json, true))
        (.jset c id path value raw)
  | jdel (c id path : String) :
      JsonEdit lib (.jdel c id path) c id (fun json => deleteJsonPath json path) (.jdel c id path)

inductive Request.Planned (lib : Lib) (db : Db) (ctx : Ctx) (shared : Bool) :
    Request → Plan → Prop
  | refused {request : Request} (e : CoreError) :
      Planned lib db ctx shared request (.done (.error e))
  | idle {request : Request} (h : request.Idle db) :
      Planned lib db ctx shared request (.done (.ok (.bool false)))
  | edit {request : Request} {event : MutationEvent} {command : Command} {mutation : Mutation}
      {reply : Answer → Except CoreError Answer} {version : Option Nat}
      {webhooks : List WebhookEnqueueRecord}
      (h : request.Edit db ctx event command mutation reply)
      (hread : db.ReadAt shared event.collection version)
      (hwebhooks : db.webhookRecordsForPrepared ctx (db.planMutation lib ctx event) =
        .ok webhooks) :
      Planned lib db ctx shared request (.write
        { batch := .command command webhooks, effect := .mutate event.collection mutation
          planned := [db.planMutation lib ctx event], version, reply })
  | record {request : Request} {command : Command} {effect : Effect} {version : Option Nat}
      {reply : Answer → Except CoreError Answer}
      (h : request.Record lib db ctx command effect version reply) :
      Planned lib db ctx shared request (Db.planRecord command effect version reply)
  | json {request : Request} {c id : String} {change : Json → Except GeoError (Json × Bool)}
      {command : Command} {cell : VersionedCollection} {object : Object} {json edited : Json}
      {changed : Bool} {answer : Answer} (h : request.JsonEdit lib c id change command)
      (hc : db.collections[c]? = some cell) (ho : cell.objects[id]? = some object)
      (hgeo : object.geo = .geoJson json) (hchange : change json = .ok (edited, changed)) :
      Planned lib db ctx shared request (.write
        { batch := .records (.command command ::
            if object.expiresAt.isSome then [.command (.persist c id)] else [])
          effect := .mutate c (.replaceGeo id (.geoJson edited) object.expiresAt.isSome)
          planned := [], version := some cell.version, reply := fun _ => .ok answer })
  | drop {c : String} {cell : VersionedCollection} {events : List MutationEvent}
      {planned : List PreparedMutation} {webhooks : List WebhookEnqueueRecord}
      (hc : db.collections[c]? = some cell)
      (h : db.planEvents lib ctx events = .ok (planned, webhooks)) :
      Planned lib db ctx shared (.dropCollection c) (.write
        { batch := .command (.dropCollection c) webhooks, effect := .dropCollection c, planned
          version := none, reply := .ok })

variable {lib : Lib} {db : Db} {ctx : Ctx} {shared : Bool}

namespace Db

variable {request : Request}

theorem planEvent_planned {event : MutationEvent} {command : Command}
    {mutation : Mutation} {reply : Answer → Except CoreError Answer} {version : Option Nat}
    (h : request.Edit db ctx event command mutation reply)
    (hread : db.ReadAt shared event.collection version) :
    request.Planned lib db ctx shared (db.planEvent lib ctx event command
      (.mutate event.collection mutation) version reply) := by
  rw [planEvent]
  split
  · exact .refused _
  next hwebhooks => exact .edit h hread hwebhooks

variable {version : Option Nat}

theorem planSet_planned {req : SetRequest} (hread : db.ReadAt shared req.collection version) :
    (Request.set req).Planned lib db ctx shared (db.planSet lib ctx req version) := by
  have hstops : req.stops db.view = match req.condition, db.getObject req.collection req.id with
      | .nx, some _ => true
      | .xx, none => true
      | _, _ => false := by
    rw [SetRequest.stops, db.view_get]
  rw [planSet]
  split
  next hcond hget =>
    refine .idle (hstops.trans ?_)
    rw [hcond, hget]
  next hcond hget =>
    refine .idle (hstops.trans ?_)
    rw [hcond, hget]
  next hnx hxx =>
    refine @planEvent_planned lib db ctx shared _ (setEvent db ctx req) _ _ _ _
      (.set (hstops.trans ?_) rfl) hread
    split
    next hcond hget => exact absurd hget (hnx _ hcond)
    next hcond hget => exact absurd hget (hxx hcond)
    · rfl

variable {c id : String}

theorem planDel_planned {before : Object} (hget : db.getObject c id = some before)
    (hread : db.ReadAt shared c version) :
    (Request.del c id).Planned lib db ctx shared (db.planDel lib ctx c id before version) :=
  @planEvent_planned lib db ctx shared _ (delEvent ctx c id before) _ _ _ _ (.del hget) hread

theorem planFset_planned {fields : List FieldEntry} {xx : Bool}
    {cell : VersionedCollection} (hc : db.collections[c]? = some cell)
    (hread : db.ReadAt shared c version) : (Request.fset c id fields xx).Planned lib db ctx shared
      (db.planFset lib ctx c id fields xx cell version) := by
  rw [planFset]
  split
  next ho =>
    cases xx with
    | false => exact .refused _
    | true => exact .idle ((getObject_of_cell hc).trans ho)
  next before ho =>
    exact @planEvent_planned lib db ctx shared _ (fsetEvent ctx c id fields before) _ _ _ _
      (.fset ((getObject_of_cell hc).trans ho) rfl) hread

theorem planExpiry_planned {expiresAt : Option Nat} {command : Command}
    (h : ∀ cell o reply, db.collections[c]? = some cell → cell.objects[id]? = some o →
      reply (.bool true) = .ok .unit →
      request.Record lib db ctx command (.mutate c (.setExpiry id expiresAt)) (some cell.version)
        reply) : request.Planned lib db ctx shared (db.planExpiry c id expiresAt command) := by
  rw [planExpiry]
  split
  · exact .refused _
  · split
    · exact .refused _
    next cell hc =>
      split
      · exact .refused _
      next o ho => exact .record (h cell o _ (collections_of_existing hc) ho rfl)

theorem editGeojsonLocal_planned {name : String}
    {change : Json → Except GeoError (Json × Bool)} {command : Command} {answer : Bool → Answer}
    (h : request.JsonEdit lib c id change command) : request.Planned lib db ctx shared
      (db.editGeojsonLocal lib c id name change command answer) := by
  rw [editGeojsonLocal]
  split
  · exact .refused _
  · split
    · exact .refused _
    next cell hc =>
      split
      · exact .refused _
      next object ho =>
        split
        next json hgeo =>
          split
          · exact .refused _
          next edited changed hchange =>
            dsimp only
            split
            · exact .refused _
            · exact .refused _
            · exact .json h (collections_of_existing hc) ho hgeo hchange
        · exact .refused _

theorem planFence_planned {check : Except CoreError Unit} {command : Command} {effect : Effect}
    (h : check = .ok () → request.Record lib db ctx command effect none .ok) :
    request.Planned lib db ctx shared (db.planFence check command effect) := by
  cases check with
  | error e => exact .refused e
  | ok u =>
    rw [planFence]
    split
    · exact .refused _
    · exact .record (h rfl)

end Db

variable (lib db ctx) in
theorem Request.exclusivePlan_planned (request : Request) :
    request.Planned lib db ctx false (request.exclusivePlan lib db ctx) := by
  cases request with
  | set req =>
    rw [exclusivePlan, setExclusive]
    split
    · exact .refused _
    · exact planSet_planned rfl
  | del c id =>
    rw [exclusivePlan, delExclusive]
    split
    · exact .refused _
    · split
      next hget => exact .idle hget
      next before hget => exact planDel_planned hget rfl
  | fset c id fields xx =>
    rw [exclusivePlan, fsetExclusive]
    split
    · exact .refused _
    · split
      · exact .refused _
      next cell hc => exact planFset_planned (collections_of_existing hc) rfl
  | expire c id seconds => exact planExpiry_planned fun _ _ _ => .expire
  | persist c id => exact planExpiry_planned fun _ _ _ => .persist
  | jset c id path value raw => exact editGeojsonLocal_planned (.jset c id path value raw)
  | jdel c id path => exact editGeojsonLocal_planned (.jdel c id path)
  | createCollection c =>
    rw [exclusivePlan, Db.createCollection]
    split
    · exact .refused _
    · split
      next cell hc => exact .idle (by rw [Request.Idle, hc]; rfl)
      next hc => exact .record (.createCollection hc)
  | dropCollection c =>
    rw [exclusivePlan, Db.dropCollection]
    split
    · exact .refused _
    · split
      next hc => exact .idle hc
      next cell hc =>
        dsimp only
        split
        · exact .refused _
        next h => exact .drop hc h
  | rename c newName =>
    rw [exclusivePlan, renameInner]
    split
    · exact .refused _
    · rw [if_neg (by simp)]
      split
      · exact .refused _
      · exact .record (.rename c newName)
  | renamenx c newName =>
    rw [exclusivePlan, renameInner]
    split
    · exact .refused _
    · split
      next hnew => exact .idle hnew
      next hnew =>
        split
        · exact .refused _
        · exact .record (.renamenx c (Bool.eq_false_iff.2 hnew))
  | setchan name d => exact planFence_planned fun hd => .setchan name hd
  | delchan name => exact @planFence_planned lib db ctx false _ (.ok ()) _ _ fun _ => .delchan name
  | pdelchan pattern =>
    exact @planFence_planned lib db ctx false _ (.ok ()) _ _ fun _ => .pdelchan pattern
  | sethook name endpoint d => exact planFence_planned fun hd => .sethook name endpoint hd
  | delhook name => exact @planFence_planned lib db ctx false _ (.ok ()) _ _ fun _ => .delhook name
  | pdelhook pattern =>
    exact @planFence_planned lib db ctx false _ (.ok ()) _ _ fun _ => .pdelhook pattern

theorem Request.localPlan_planned {request : Request} {plan : Plan}
    (h : request.localPlan lib db ctx = some plan) : request.Planned lib db ctx true plan := by
  have hread : ∀ {c : String} {cell : VersionedCollection}, db.collections[c]? = some cell →
      db.ReadAt true c (some cell.version) := fun hc => ⟨_, hc, rfl⟩
  cases request with
  | set req =>
    rw [localPlan] at h
    split at h
    · cases h
      exact .refused _
    · rw [trySetLocal] at h
      split at h
      · cases h
        exact .refused _
      · split at h
        · cases h
        · split at h
          · cases h
          next cell hc =>
            split at h
            next hfast =>
              -- without a log the object goes straight in
              cases h
              refine .record (.set ?_ hfast.2.1 (by simpa using hfast.1)
                (by simpa using hfast.2.2.2.2))
              rw [setObject, getObject_of_cell hc, hfast.2.2.1]
              rfl
            · cases h
              exact planSet_planned (hread hc)
  | del c id =>
    rw [localPlan, tryDelLocal] at h
    split at h
    · cases h
      exact .refused _
    · split at h
      · cases h
      · split at h
        next hc =>
          cases h
          exact .idle (by rw [Request.Idle, getObject, hc]; rfl)
        next cell hc =>
          have hget := @getObject_of_cell db c id cell hc
          split at h
          next ho =>
            cases h
            exact .idle (hget.trans ho)
          next before ho =>
            cases h
            exact planDel_planned (hget.trans ho) (hread hc)
  | fset c id fields xx =>
    rw [localPlan, tryFsetLocal] at h
    split at h
    · cases h
      exact .refused _
    · split at h
      · cases h
      · split at h
        · cases h
          exact .refused _
        next cell hc =>
          cases h
          exact planFset_planned (collections_of_existing hc)
            (hread (collections_of_existing hc))
  | expire c id seconds =>
    cases h
    exact planExpiry_planned fun _ _ _ => .expire
  | persist c id =>
    cases h
    exact planExpiry_planned fun _ _ _ => .persist
  | jset c id path value raw =>
    cases h
    exact editGeojsonLocal_planned (.jset c id path value raw)
  | jdel c id path =>
    cases h
    exact editGeojsonLocal_planned (.jdel c id path)
  | _ => cases h

variable (lib db ctx) in
theorem Request.plan_planned (request : Request) :
    ∃ shared, request.Planned lib db ctx shared (request.plan lib db ctx) := by
  rw [Request.plan]
  cases h : request.localPlan lib db ctx with
  | none => exact ⟨false, request.exclusivePlan_planned lib db ctx⟩
  | some plan => exact ⟨true, Request.localPlan_planned h⟩

theorem Request.plan_valid {db : Db} {ctx : Ctx} {req : SetRequest} {w : Write}
    (h : (Request.set req).plan lib db ctx = .write w) :
    req.object.validate lib.toGeoLib = .ok () := by
  rw [plan, localPlan] at h
  cases hvalid : req.object.validate lib.toGeoLib with
  | error e =>
    rw [hvalid] at h
    cases h
  | ok u => rfl

end LatLng.Core
