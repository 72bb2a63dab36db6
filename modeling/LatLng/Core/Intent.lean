import LatLng.Core.Plans
import LatLng.Core.Trim

/-! What a planned write intends: the commands it logs and the change it makes are two
descriptions of one step on the view. -/

namespace LatLng.Core

open Geo Geofence Storage View List

def Mutation.indexable (lib : Lib) : Mutation → Bool
  | .upsert object => object.geo.indexable lib.toGeoLib
  | .replaceGeo _ geo _ => geo.indexable lib.toGeoLib
  | _ => true

def Mutation.act : Mutation → Objects → Objects
  | .upsert object, objects => objects.insert object.id object
  | .remove id, objects => objects.erase id
  | .insertFields id fields, objects =>
    objects.modify id fun o => { o with fields := applyFieldUpdates o.fields fields }
  | .setExpiry id expiresAt, objects => objects.modify id fun o => { o with expiresAt }
  | .replaceGeo id geo clearTtl, objects => objects.modify id fun o =>
    { o with geo, expiresAt := if clearTtl then none else o.expiresAt }

def Mutation.finds (objects : Objects) : Mutation → Bool
  | .upsert _ => true
  | .remove id => objects[id]?.isSome
  | .insertFields id _ => objects[id]?.isSome
  | .setExpiry id _ => objects[id]?.isSome
  | .replaceGeo id _ _ => objects[id]?.isSome

variable {lib : Lib}

variable (lib) in
theorem Mutation.apply_of_indexable (v : VersionedCollection) {m : Mutation} (h : m.indexable lib) :
    (m.apply lib v).1 = .ok (m.finds v.objects) ∧
      (m.apply lib v).2.objects = m.act v.objects := by
  cases m with
  | upsert object =>
    rw [Mutation.apply]
    rcases v.collection.upsert_cases lib.toFenceLib object with ⟨-, hok, hobj⟩ | ⟨hno, -⟩
    · rcases hu : v.collection.upsert lib.toFenceLib object with ⟨r, c⟩
      rw [hu] at hok hobj
      dsimp only at hok hobj
      subst hok
      exact ⟨rfl, hobj⟩
    · rw [Mutation.indexable, hno] at h
      cases h
  | remove id =>
    rw [Mutation.apply]
    have hfst := v.collection.remove_fst id
    have hobj := v.collection.objects_remove id
    rcases hr : v.collection.remove id with ⟨_ | o, c⟩ <;> rw [hr] at hfst hobj <;>
      exact ⟨by rw [Mutation.finds, VersionedCollection.objects, ← hfst]; rfl, hobj⟩
  | insertFields id fields =>
    have hfst := v.collection.insertFields_fst id fields
    have hobj := objects_insertFields v id fields
    rw [Mutation.apply, Mutation.finds, VersionedCollection.objects, ← hfst]
    rcases hr : v.collection.insertFields id fields with ⟨_ | _, c⟩ <;> rw [hr] at hobj <;>
      exact ⟨rfl, hobj⟩
  | setExpiry id expiresAt =>
    have hfst := v.collection.setExpiry_fst id expiresAt
    have hobj := objects_setExpiry v id expiresAt
    rw [VersionedCollection.setExpiry] at hobj
    rw [Mutation.apply, Mutation.finds, VersionedCollection.objects, ← hfst]
    rcases hr : v.collection.setExpiry id expiresAt with ⟨_ | _, c⟩ <;> rw [hr] at hobj <;>
      exact ⟨rfl, hobj⟩
  | replaceGeo id geo clearTtl =>
    have hfst : (v.collection.replaceGeo lib.toFenceLib id geo).1 =
        .ok (v.collection.objects[id]?.isSome) := by
      rcases v.collection.replaceGeo_cases lib.toFenceLib id geo with ⟨-, hok⟩ | ⟨-, hno, -⟩
      · exact hok
      · rw [Mutation.indexable, hno] at h
        cases h
    have hobj := @Collection.objects_replaceGeo lib.toFenceLib v.collection id geo
    rw [Mutation.apply]
    rcases hr : v.collection.replaceGeo lib.toFenceLib id geo with ⟨r, c⟩
    rw [hr] at hfst hobj
    dsimp only at hfst hobj
    subst hfst
    refine ⟨rfl, ?_⟩
    cases clearTtl with
    | false => exact hobj
    | true =>
      have := c.objects_setExpiry id none
      rw [hobj, Lib.modify_modify] at this
      exact this

theorem Mutation.apply_of_not_indexable (v : VersionedCollection) {m : Mutation}
    (h : m.indexable lib = false) (hfinds : m.finds v.objects) :
    ∃ e, (m.apply lib v).1 = .error (.index e) := by
  cases m with
  | upsert object =>
    rw [Mutation.apply]
    rcases v.collection.upsert_cases lib.toFenceLib object with ⟨hyes, -⟩ | ⟨-, e, herr, -⟩
    · rw [Mutation.indexable, hyes] at h
      cases h
    · rcases hu : v.collection.upsert lib.toFenceLib object with ⟨r, c⟩
      rw [hu] at herr
      subst herr
      exact ⟨e, rfl⟩
  | replaceGeo id geo clearTtl =>
    rw [Mutation.apply]
    rcases v.collection.replaceGeo_cases lib.toFenceLib id geo with ⟨hyes, -⟩ | ⟨-, -, e, herr⟩
    · rw [Mutation.indexable, hyes hfinds] at h
      cases h
    · rcases hr : v.collection.replaceGeo lib.toFenceLib id geo with ⟨r, c⟩
      rw [hr] at herr
      subst herr
      exact ⟨e, rfl⟩
  | _ => cases h

def Effect.indexable (lib : Lib) : Effect → Bool
  | .mutate _ m => m.indexable lib
  | _ => true

/-- The geometry a request wants to have stored, if it has one: a new one, or the result of
editing the stored document. -/
inductive Aim where
  | plain
  | store (collection id : String) (geo : GeoType)
  | edit (collection id : String) (geo : GeoType)

variable (lib) in
/-- The commands of a write and its effect, as the read section chooses them for a view and
the aim of the request. -/
inductive Intends (v : View) (aim : Aim) : List Command → Effect → Prop
  | set (record : PersistedSetRecord)
    (h : aim = .store record.collection record.id record.object) :
    Intends v aim [.setPersisted record] (.mutate record.collection (.upsert record.toObject))
  | del {c id : String} (h : (v.get c id).isSome) :
    Intends v aim [.del c id] (.mutate c (.remove id))
  | fset {c id : String} (fields : List FieldEntry) (xx : Bool) (h : (v.get c id).isSome) :
    Intends v aim [.fset c id fields xx] (.mutate c (.insertFields id fields))
  | expireAt {c id : String} (deadline : Nat) (h : (v.get c id).isSome) :
    Intends v aim [.expireAt c id deadline] (.mutate c (.setExpiry id (some deadline)))
  | persist {c id : String} (h : (v.get c id).isSome) :
    Intends v aim [.persist c id] (.mutate c (.setExpiry id none))
  | jset {c id path value : String} {raw : Bool} {o : Object} {json edited : Json}
    (hget : v.get c id = some o) (hgeo : o.geo = .geoJson json)
    (hedit : setJsonPath json path (jsetPayload lib value raw) = .ok edited)
    (haim : aim = .edit c id (.geoJson edited)) :
    Intends v aim (.jset c id path value raw :: if o.expiresAt.isSome then [.persist c id] else [])
      (.mutate c (.replaceGeo id (.geoJson edited) o.expiresAt.isSome))
  | jdel {c id path : String} {o : Object} {json edited : Json} {changed : Bool}
    (hget : v.get c id = some o) (hgeo : o.geo = .geoJson json)
    (hedit : deleteJsonPath json path = .ok (edited, changed))
    (haim : aim = .edit c id (.geoJson edited)) :
    Intends v aim (.jdel c id path :: if o.expiresAt.isSome then [.persist c id] else [])
      (.mutate c (.replaceGeo id (.geoJson edited) o.expiresAt.isSome))
  | createCollection (c : String) : Intends v aim [.createCollection c] (.createCollection c)
  | dropCollection (c : String) : Intends v aim [.dropCollection c] (.dropCollection c)
  | rename (c newName : String) : Intends v aim [.rename c newName] (.rename c newName)
  | setChannel (name : String) {d : GeofenceDef} (h : ensureGeofenceEvaluable d = .ok ()) :
    Intends v aim [.setChannel name d] (.setChannel name d)
  | delChannel (name : String) : Intends v aim [.delChannel name] (.delChannel name)
  | pdelChannel (pattern : String) : Intends v aim [.pdelChannel pattern] (.pdelChannel pattern)
  | setHook (name endpoint : String) {d : GeofenceDef} (h : ensureGeofenceEvaluable d = .ok ()) :
    Intends v aim [.setHook name endpoint d] (.setHook name endpoint d)
  | delHook (name : String) : Intends v aim [.delHook name] (.delHook name)
  | pdelHook (pattern : String) : Intends v aim [.pdelHook pattern] (.pdelHook pattern)

def AppliesAll (lib : Lib) (now : Nat) : View → List Command → Prop
  | _, [] => True
  | v, c :: cs => c.Applies v ∧ AppliesAll lib now (v.apply lib now c) cs

theorem Trimmed.applyAll {now at_ : Nat} {full kept : View} {commands : List Command}
    (h : Trimmed now full kept) (happlies : AppliesAll lib at_ kept commands) :
    Trimmed now (commands.foldl (View.apply lib at_) full)
      (commands.foldl (View.apply lib at_) kept) := by
  induction commands generalizing full kept with
  | nil => exact h
  | cons c cs ih => exact ih (h.apply c happlies.1) happlies.2

namespace Intends

variable {v : View} {aim : Aim} {commands : List Command} {effect : Effect}

theorem get_editGeo {c id : String} {o : Object} (hget : v.get c id = some o)
    (edit : Json → Except GeoError Json) :
    ((v.update c (·.modify id (editGeo edit))).get c id).isSome := by
  rw [get_modify, if_pos ⟨rfl, rfl⟩, hget]
  rfl

theorem appliesAll (h : Intends lib v aim commands effect) (now : Nat) :
    AppliesAll lib now v commands := by
  cases h with
  | expireAt deadline h => exact ⟨h, trivial⟩
  | persist h => exact ⟨h, trivial⟩
  | jset hget hgeo hedit haim | jdel hget hgeo hedit haim =>
    refine ⟨trivial, ?_⟩
    split
    · exact ⟨get_editGeo hget _, trivial⟩
    · trivial
  | _ => exact ⟨trivial, trivial⟩

theorem geometry (h : Intends lib v aim commands effect) {c : Command} (hc : c ∈ commands)
    {geo : GeoType} (hgeo : c.geometry? = some geo) :
    (∃ c id, aim = .store c id geo) ∧ effect.indexable lib = geo.indexable lib.toGeoLib := by
  cases h with
  | set record haim =>
    cases mem_singleton.1 hc
    cases hgeo
    exact ⟨⟨_, _, haim⟩, rfl⟩
  | jset hget hgeo' hedit haim | jdel hget hgeo' hedit haim =>
    rcases mem_cons.1 hc with rfl | hc
    · cases hgeo
    · split at hc
      · cases mem_singleton.1 hc
        cases hgeo
      · cases hc
  | _ =>
    cases mem_singleton.1 hc
    cases hgeo

theorem replayable (h : Intends lib v aim commands effect)
    (hidx : effect.indexable lib) : ∀ c ∈ commands, c.Replayable lib := by
  intro c hc geo hgeo
  rw [← (h.geometry hc hgeo).2]
  exact hidx

theorem indexable_of_plain (h : Intends lib v .plain commands effect) :
    effect.indexable lib = true := by
  cases h with
  | set record haim => cases haim
  | jset hget hgeo hedit haim => cases haim
  | jdel hget hgeo hedit haim => cases haim
  | _ => rfl

end Intends

/-! ### The effect is what the commands say -/

theorem Effect.apply_mutate (s : Store) (c : String) {m : Mutation} (h : m.indexable lib) :
    ((Effect.mutate c m).apply lib s).1 = .ok (.bool (m.finds (s.view.collections[c]?.getD ∅))) ∧
      ((Effect.mutate c m).apply lib s).2.view =
        { s.view with
          collections := s.view.collections.insert c (m.act (s.view.collections[c]?.getD ∅)) } := by
  obtain ⟨hfst, hobj⟩ := m.apply_of_indexable lib (s.ensureCollectionCell c) h
  rw [Store.objects_ensureCollectionCell] at hfst hobj
  rw [Effect.apply]
  rcases hr : m.apply lib (s.ensureCollectionCell c) with ⟨r, cell⟩
  rw [hr] at hfst hobj
  subst hfst
  exact ⟨rfl, by rw [Store.view_setCell, hobj]⟩

variable {v : View} {c id : String}

theorem View.insert_eq_update (h : (v.get c id).isSome) (f : Objects → Objects) :
    { v with collections := v.collections.insert c (f (v.collections[c]?.getD ∅)) } =
      v.update c f := by
  rw [View.get] at h
  cases hc : v.collections[c]? with
  | none =>
    rw [hc] at h
    cases h
  | some objects => rw [update, ← Lib.insert_eq_modify hc, Option.getD_some]

variable {o : Object}

theorem View.update_congr (hget : v.get c id = some o) {f g : Object → Object} (hfg : f o = g o) :
    v.update c (·.modify id f) = v.update c (·.modify id g) := by
  obtain ⟨objects, hc, hid⟩ := Option.bind_eq_some_iff.1 hget
  have hobjects : objects.modify id f = objects.modify id g := Lib.modify_congr hid hfg
  have hcollections : v.collections.modify c (·.modify id f) =
      v.collections.modify c (·.modify id g) := Lib.modify_congr hc hobjects
  rw [update, update, hcollections]

theorem View.update_update (v : View) (c id : String) (f g : Object → Object) :
    (v.update c (·.modify id f)).update c (·.modify id g) = v.update c (·.modify id (g ∘ f)) := by
  have hcomp : ((fun objects : Objects => objects.modify id g) ∘
      fun objects : Objects => objects.modify id f) =
      fun objects : Objects => objects.modify id (g ∘ f) := by
    funext objects
    exact Lib.modify_modify objects id f g
  rw [update, update, update]
  rw [Lib.modify_modify, hcomp]

variable {edit : Json → Except GeoError Json}

theorem View.apply_edit {json edited : Json} {command : Command} (now : Nat)
    (hcommand : v.apply lib now command = v.update c (·.modify id (editGeo edit)))
    (hget : v.get c id = some o) (hgeo : o.geo = .geoJson json) (hedit : edit json = .ok edited) :
    (command :: if o.expiresAt.isSome then [.persist c id] else []).foldl (apply lib now) v =
      v.update c ((Mutation.replaceGeo id (.geoJson edited) o.expiresAt.isSome).act) := by
  have hedited : editGeo edit o = { o with geo := .geoJson edited } := by
    rw [editGeo, hgeo]
    dsimp only
    rw [hedit]
  rw [foldl_cons, hcommand]
  cases hexp : o.expiresAt with
  | none =>
    refine update_congr hget ?_
    rw [hedited, hexp]
    rfl
  | some deadline =>
    change (v.update c _).update c _ = _
    rw [update_update]
    refine update_congr hget ?_
    rw [Function.comp_apply, hedited]
    rfl

theorem Intends.view {s : Store} {aim : Aim} {commands : List Command}
    {effect : Effect} (h : Intends lib s.view aim commands effect)
    (hidx : effect.indexable lib) (now : Nat) :
    (∃ answer, (effect.apply lib s).1 = .ok answer ∧
      ∀ c m, effect = .mutate c m → answer = .bool true) ∧
      (effect.apply lib s).2.view = commands.foldl (apply lib now) s.view := by
  -- commands on an existing object: the effect updates the collection in place
  have hupdate : ∀ {c id : String} {m : Mutation} {commands : List Command},
      (s.view.get c id).isSome → m.finds (s.view.collections[c]?.getD ∅) =
        (s.view.get c id).isSome → m.indexable lib = true →
      commands.foldl (apply lib now) s.view = s.view.update c m.act →
      (∃ answer, ((Effect.mutate c m).apply lib s).1 = .ok answer ∧
        ∀ c' m', Effect.mutate c m = .mutate c' m' → answer = .bool true) ∧
        ((Effect.mutate c m).apply lib s).2.view = commands.foldl (apply lib now) s.view := by
    intro c id m commands hsome hfinds hm hfold
    obtain ⟨hfst, hview⟩ := Effect.apply_mutate s c hm
    refine ⟨⟨_, hfst, fun _ _ _ => ?_⟩, by rw [hview, insert_eq_update hsome, hfold]⟩
    rw [hfinds, hsome]
  have hfound : ∀ c id : String, ((s.view.collections[c]?.getD ∅)[id]?).isSome =
      (s.view.get c id).isSome := by
    intro c id
    rw [View.get]
    cases s.view.collections[c]? with
    | none => simp
    | some objects => rfl
  cases h with
  | set record =>
    obtain ⟨hfst, hview⟩ := Effect.apply_mutate (m := .upsert record.toObject) s
      record.collection hidx
    exact ⟨⟨_, hfst, fun _ _ _ => rfl⟩, hview⟩
  | del hsome | fset fields xx hsome | expireAt deadline hsome | persist hsome =>
    exact hupdate hsome (hfound _ _) hidx rfl
  | jset hget hgeo hedit haim =>
    exact hupdate (by rw [hget]; rfl) (hfound _ _) hidx (apply_edit now rfl hget hgeo hedit)
  | jdel hget hgeo hedit haim =>
    exact hupdate (by rw [hget]; rfl) (hfound _ _) hidx
      (apply_edit now rfl hget hgeo (by rw [hedit]; rfl))
  | createCollection c =>
    exact ⟨⟨_, rfl, (fun _ _ h => by cases h)⟩, by
      simp only [Effect.apply, Store.view_setCell, Store.objects_ensureCollectionCell,
        foldl_cons, foldl_nil, apply]⟩
  | dropCollection c =>
    exact ⟨⟨_, rfl, (fun _ _ h => by cases h)⟩, by
      simp only [Effect.apply, Store.view, Lib.map_erase, foldl_cons, foldl_nil,
        apply]⟩
  | rename c newName => exact ⟨⟨_, rfl, (fun _ _ h => by cases h)⟩, s.view_renameCell c newName⟩
  | setChannel name hd =>
    exact ⟨⟨_, rfl, (fun _ _ h => by cases h)⟩, by simp [Effect.apply, Store.view, apply,
      Registry.setChannel, hd, Except.isOk, Except.toBool]⟩
  | delChannel name | pdelChannel pattern | delHook name | pdelHook pattern =>
    exact ⟨⟨_, rfl, (fun _ _ h => by cases h)⟩, by simp [Effect.apply, Store.view, apply]⟩
  | setHook name endpoint hd =>
    exact ⟨⟨_, rfl, (fun _ _ h => by cases h)⟩, by simp [Effect.apply, Store.view, apply,
      Registry.setHook, hd, Except.isOk, Except.toBool]⟩

/-! ### Every planned write is an intention -/

variable {db : Db}

theorem Db.isSome_get {cell : VersionedCollection} (hc : db.collections[c]? = some cell)
    (ho : cell.objects[id]? = some o) : db.view.get c id = some o := by
  rw [db.view_get, Db.getObject_of_cell hc, ho]

def Replies (effect : Effect) (reply : Answer → Except CoreError Answer) : Prop :=
  ∀ a, (∀ c m, effect = .mutate c m → a = .bool true) → ∃ b, reply a = .ok b

theorem replies_ok {effect : Effect} (answer : Answer → Answer) :
    Replies effect fun a => .ok (answer a) := fun a _ => ⟨answer a, rfl⟩

structure Write.Intended (lib : Lib) (v : View) (aim : Aim) (w : Write) : Prop where
  intends : Intends lib v aim w.batch.commands w.effect
  replies : Replies w.effect w.reply

def Plan.Intended (lib : Lib) (v : View) (aim : Aim) : Plan → Prop
  | .done _ => True
  | .write w => w.Intended lib v aim

theorem intends_set (req : SetRequest) (object : Object) (hid : object.id = req.id)
    (hgeo : object.geo = req.object) :
    Intends lib v (.store req.collection req.id req.object) [Db.setRecord req object]
      (.mutate req.collection (.upsert object)) := by
  have hobject : ({ collection := req.collection, id := req.id, object := req.object
                    fields := fieldMapToEntries object.fields
                    expiresAtMs := object.expiresAt } : PersistedSetRecord).toObject = object := by
    rw [PersistedSetRecord.toObject, fieldEntriesToMap_fieldMapToEntries, ← hid, ← hgeo]
  have := @Intends.set lib v (.store req.collection req.id req.object)
    { collection := req.collection, id := req.id, object := req.object
      fields := fieldMapToEntries object.fields, expiresAtMs := object.expiresAt } rfl
  rw [hobject] at this
  exact this

theorem Db.evaluable_of_validate {d : GeofenceDef} (h : Db.validateGeofenceDef lib d = .ok ()) :
    ensureGeofenceEvaluable d = .ok () := by
  rw [Db.validateGeofenceDef] at h
  cases he : ensureGeofenceEvaluable d with
  | error e =>
    rw [he] at h
    cases h
  | ok u => rfl

def Db.editAim (db : Db) (c id : String) (edit : Json → Except GeoError Json) : Aim :=
  match db.getObject c id with
  | some { geo := .geoJson json, .. } =>
    match edit json with
    | .ok edited => .edit c id (.geoJson edited)
    | .error _ => .plain
  | _ => .plain

def Request.aim (lib : Lib) (db : Db) : Request → Aim
  | .set req => .store req.collection req.id req.object
  | .jset c id path value raw =>
    db.editAim c id fun json => setJsonPath json path (jsetPayload lib value raw)
  | .jdel c id path => db.editAim c id fun json => (deleteJsonPath json path).map Prod.fst
  | _ => .plain

theorem Db.editAim_eq {json edited : Json}
    (hget : db.view.get c id = some o) (hgeo : o.geo = .geoJson json)
    (hedit : edit json = .ok edited) : db.editAim c id edit = .edit c id (.geoJson edited) := by
  obtain ⟨oid, geo, fields, expiresAt⟩ := o
  cases hgeo
  rw [db.view_get] at hget
  rw [Db.editAim, hget]
  dsimp only
  rw [hedit]

theorem Request.Planned.intended {ctx : Ctx} {shared : Bool} {request : Request}
    {plan : Plan} (h : request.Planned lib db ctx shared plan) :
    plan.Intended lib db.view (request.aim lib db) := by
  cases h with
  | refused e => trivial
  | idle h => trivial
  | edit h hread hwebhooks =>
    cases h with
    | set hgo hobject =>
      cases hobject
      exact ⟨intends_set _ _ rfl rfl, replies_ok fun _ => .bool true⟩
    | del hget => exact ⟨.del (by rw [db.view_get, hget]; rfl), replies_ok id⟩
    | fset hget hreply =>
      refine ⟨.fset _ _ (by rw [db.view_get, hget]; rfl), fun a ha => ?_⟩
      rw [ha _ _ rfl]
      exact ⟨_, hreply⟩
  | record h =>
    cases h with
    | set hobject halways hvolatile hunseen =>
      cases hobject
      exact ⟨intends_set _ _ rfl rfl, replies_ok fun _ => .bool true⟩
    | expire hc ho hreply =>
      refine ⟨.expireAt _ (by rw [Db.isSome_get hc ho]; rfl), fun a ha => ?_⟩
      rw [ha _ _ rfl]
      exact ⟨_, hreply⟩
    | persist hc ho hreply =>
      refine ⟨.persist (by rw [Db.isSome_get hc ho]; rfl), fun a ha => ?_⟩
      rw [ha _ _ rfl]
      exact ⟨_, hreply⟩
    | createCollection hnone => exact ⟨.createCollection _, replies_ok id⟩
    | rename c newName => exact ⟨.rename c newName, replies_ok fun _ => .unit⟩
    | renamenx c hnew => exact ⟨.rename c _, replies_ok id⟩
    | setchan name hd => exact ⟨.setChannel name (Db.evaluable_of_validate hd), replies_ok id⟩
    | delchan name => exact ⟨.delChannel name, replies_ok id⟩
    | pdelchan pattern => exact ⟨.pdelChannel pattern, replies_ok id⟩
    | sethook name endpoint hd =>
      exact ⟨.setHook name endpoint (Db.evaluable_of_validate hd), replies_ok id⟩
    | delhook name => exact ⟨.delHook name, replies_ok id⟩
    | pdelhook pattern => exact ⟨.pdelHook pattern, replies_ok id⟩
  | @json _ c id _ command _ object json edited changed answer h hc ho hgeo hchange =>
    refine ⟨?_, replies_ok fun _ => answer⟩
    have hget := Db.isSome_get hc ho
    have hcommands : Batch.commands (.records (.command command ::
          if object.expiresAt.isSome then [.command (.persist c id)] else [])) =
        command :: if object.expiresAt.isSome then [.persist c id] else [] := by
      cases object.expiresAt <;> rfl
    rw [hcommands]
    cases h with
    | jset c id path value raw =>
      cases hset : setJsonPath json path (jsetPayload lib value raw) with
      | error e =>
        simp only [hset] at hchange
        cases hchange
      | ok json' =>
        simp only [hset] at hchange
        cases hchange
        exact .jset hget hgeo hset (Db.editAim_eq hget hgeo hset)
    | jdel c id path =>
      have hdelete : deleteJsonPath json path = .ok (edited, changed) := hchange
      exact .jdel hget hgeo hdelete (Db.editAim_eq hget hgeo (by rw [hdelete]; rfl))
  | drop hc h => exact ⟨.dropCollection _, replies_ok id⟩

theorem Request.exclusivePlan_intended (db : Db) (ctx : Ctx) (request : Request) :
    (request.exclusivePlan lib db ctx).Intended lib db.view (request.aim lib db) :=
  (request.exclusivePlan_planned lib db ctx).intended

theorem Request.localPlan_intended {ctx : Ctx} {request : Request} {plan : Plan}
    (h : request.localPlan lib db ctx = some plan) :
    plan.Intended lib db.view (request.aim lib db) :=
  (Request.localPlan_planned h).intended

variable (lib) in
theorem Request.plan_intended (db : Db) (ctx : Ctx) (request : Request) :
    (request.plan lib db ctx).Intended lib db.view (request.aim lib db) := by
  obtain ⟨shared, h⟩ := request.plan_planned lib db ctx
  exact h.intended

variable (lib) in
theorem Db.delExclusive_intended (db : Db) (ctx : Ctx) (collection id : String) :
    (db.delExclusive lib ctx collection id).Intended lib db.view .plain :=
  Request.exclusivePlan_intended db ctx (.del collection id)

end LatLng.Core
