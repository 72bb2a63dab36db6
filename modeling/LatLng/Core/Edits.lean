import LatLng.Core.Admissible
import LatLng.Core.Reachable
import LatLng.Geofence.Static

/-! What SET, FSET and DEL do to the objects and to the fences: a call changes nothing, or it
carries out one mutation that every fence sees. -/

namespace LatLng.Core

open Geo Geofence Storage Std List

variable (lib : Lib)

def Request.edits : Request → Bool
  | .set _ => true
  | .del _ _ => true
  | .fset _ _ _ _ => true
  | _ => false

def Request.event? (db : Db) (ctx : Ctx) : Request → Option MutationEvent
  | .set req => some (setEvent db ctx req)
  | .del collection id => (db.getObject collection id).map (delEvent ctx collection id)
  | .fset collection id fields _ =>
    (db.getObject collection id).map (fsetEvent ctx collection id fields)
  | _ => none

def Db.seen (db : Db) (ctx : Ctx) (event : MutationEvent) : Geofence.Mutation where
  event := event
  lookup := db.liveObjects ctx
  order := ctx.order

def Write.published (w : Write) (s : Store) : List GeofenceEvent :=
  match w.effect.apply lib s with
  | (.error _, _) => []
  | (.ok answer, _) =>
    match w.effect, answer with
    | .mutate _ (.insertFields _ _), .bool false => []
    | _, _ => w.planned.flatMap PreparedMutation.events

def Db.published (db : Db) (ctx : Ctx) (request : Request) : List GeofenceEvent :=
  match request.plan lib db ctx with
  | .done _ => []
  | .write w =>
    match (db.persist lib ctx w.batch).1 with
    | .error _ => []
    | .ok _ => w.published lib db.toStore

variable {lib}

/-! ### The plan -/

structure Write.Carries (lib : Lib) (db : Db) (ctx : Ctx) (event : MutationEvent) (w : Write) :
    Prop where
  mutates : ∃ mutation, w.effect = .mutate event.collection mutation ∧
    mutation.finds (db.view.collections[event.collection]?.getD ∅) = true ∧
    (∀ id, (mutation.act (db.view.collections[event.collection]?.getD ∅))[id]? =
      if event.id = id then event.after
      else (db.view.collections[event.collection]?.getD ∅)[id]?) ∧
    (mutation.indexable lib = false → ∃ object, mutation = .upsert object)
  reply : w.reply (.bool true) = .ok (.bool true)
  planned : w.planned = [db.planMutation lib ctx event] ∨
    (w.planned = [] ∧ db.geofences.hasRelevantSideEffects event.collection = false)

def Plan.Carries (lib : Lib) (db : Db) (ctx : Ctx) (event? : Option MutationEvent) : Plan → Prop
  | .done result => result ≠ .ok (.bool true)
  | .write w => ∃ event, event? = some event ∧ w.Carries lib db ctx event

section Plans

variable {db : Db} {ctx : Ctx}

theorem error_ne_true (e : CoreError) :
    (.error e : Except CoreError Answer) ≠ .ok (.bool true) := nofun

theorem false_ne_true : (.ok (.bool false) : Except CoreError Answer) ≠ .ok (.bool true) :=
  nofun

theorem act_upsert (objects : Objects) (object : Object) (id : String) :
    ((Mutation.upsert object).act objects)[id]? =
      if object.id = id then some object else objects[id]? := by
  rw [Mutation.act, ExtTreeMap.getElem?_insert]
  by_cases h : object.id = id <;> simp [h]

theorem Db.getObject_eq (db : Db) (collection id : String) :
    db.getObject collection id = (db.view.collections[collection]?.getD ∅)[id]? := by
  rw [← db.view_get, View.get]
  cases db.view.collections[collection]? <;> simp

variable (lib) in
theorem Request.Edit.mutates {request : Request} {event : MutationEvent} {command : Command}
    {mutation : Mutation} {reply : Answer → Except CoreError Answer}
    (h : request.Edit db ctx event command mutation reply) :
    mutation.finds (db.view.collections[event.collection]?.getD ∅) ∧
      (∀ id, (mutation.act (db.view.collections[event.collection]?.getD ∅))[id]? =
        if event.id = id then event.after
        else (db.view.collections[event.collection]?.getD ∅)[id]?) ∧
      (mutation.indexable lib = false → ∃ object, mutation = .upsert object) ∧
      reply (.bool true) = .ok (.bool true) ∧ request.event? db ctx = some event := by
  cases h with
  | set hgo hobject =>
    cases hobject
    exact ⟨rfl, act_upsert _ _, fun _ => ⟨_, rfl⟩, rfl, rfl⟩
  | @del c id before hget =>
    have hfound := (db.getObject_eq c id).symm.trans hget
    refine ⟨?_, fun other => ?_, (fun h => by cases h), rfl, by rw [event?, hget]; rfl⟩
    · simp only [Mutation.finds, delEvent, hfound, Option.isSome_some]
    · simp only [Mutation.act, delEvent, ExtTreeMap.getElem?_erase]
      by_cases hid : id = other <;> simp [hid]
  | @fset c id fields xx before reply hget hreply =>
    have hfound := (db.getObject_eq c id).symm.trans hget
    refine ⟨?_, fun other => ?_, (fun h => by cases h), hreply, by rw [event?, hget]; rfl⟩
    · simp only [Mutation.finds, fsetEvent, hfound, Option.isSome_some]
    · simp only [Mutation.act, fsetEvent, ExtTreeMap.getElem?_modify]
      by_cases hid : id = other
      · subst hid
        simp [hfound]
      · simp [hid]

variable (lib db ctx) in
theorem Request.plan_carries {request : Request} (h : request.edits) :
    (request.plan lib db ctx).Carries lib db ctx (request.event? db ctx) := by
  obtain ⟨shared, hplanned⟩ := request.plan_planned lib db ctx
  generalize request.plan lib db ctx = plan at hplanned ⊢
  cases hplanned with
  | refused e => exact error_ne_true e
  | idle hidle => exact false_ne_true
  | edit hedit hread hwebhooks =>
    obtain ⟨hfinds, hact, hindexable, hreply, hevent⟩ := hedit.mutates lib
    exact ⟨_, hevent, ⟨_, rfl, hfinds, hact, hindexable⟩, hreply, .inl rfl⟩
  | record hrecord =>
    cases hrecord with
    | set hobject halways hvolatile hunseen =>
      -- without a log the object goes straight in, and no fence is concerned
      cases hobject
      exact ⟨_, rfl, ⟨_, rfl, rfl, act_upsert _ _, fun _ => ⟨_, rfl⟩⟩, rfl, .inr ⟨rfl, hunseen⟩⟩
    | _ => cases h
  | json hjson hc ho hgeo hchange => cases hjson <;> cases h
  | drop hc hevents => cases h

end Plans

/-! ### The call -/

variable {event : MutationEvent}

theorem prepareMutation_unseen {r : Registry}
    (h : r.hasRelevantSideEffects event.collection = false) (order : List String → List String)
    (lookup : String → List Object) :
    r.prepareMutation lib.toFenceLib order event lookup = ⟨[], [], [], 0⟩ := by
  have hnames : ∀ {ε : Type} (t : FenceTable ε), t.sideEffects event.collection = false →
      t.relevantNames event.collection = [] := by
    intro ε t ht
    simp only [FenceTable.sideEffects, hasIndexedNames, Bool.or_eq_false_iff,
      decide_eq_false_iff_not, not_not] at ht
    rw [FenceTable.relevantNames_eq, ht.1, ht.2]
    rfl
  have hnothing : ∀ {ε : Type} (t : FenceTable ε) (asHook : Bool),
      t.sideEffects event.collection = false →
      prepareFences lib.toFenceLib order t asHook event lookup = ([], [], 0) := by
    intro ε t asHook ht
    rw [prepareFences, hnames t ht]
    rfl
  obtain ⟨hchannels, hhooks⟩ := Bool.or_eq_false_iff.1 h
  rw [Registry.prepareMutation, hnothing _ _ hchannels, hnothing _ _ hhooks]
  rfl

theorem evaluateMutation_unseen {r : Registry} {m : Geofence.Mutation}
    (h : r.hasRelevantSideEffects m.event.collection = false) :
    r.evaluateMutation lib.toFenceLib m = (r, []) := by
  rw [Registry.evaluateMutation, prepareMutation_unseen h]
  rfl

variable {w : Write}

theorem Write.Carries.fences {db : Db} {ctx : Ctx} (h : w.Carries lib db ctx event) :
    (w.planned.foldl Registry.applyPreparedMutation db.geofences,
      w.planned.flatMap PreparedMutation.events) =
        db.geofences.evaluateMutation lib.toFenceLib (db.seen ctx event) := by
  rcases h.planned with hplanned | ⟨hplanned, hunseen⟩
  · rw [hplanned, flatMap_cons, flatMap_nil, append_nil]
    rfl
  · rw [hplanned, evaluateMutation_unseen hunseen]
    rfl

theorem View.get_setObjects (v : View) (collection : String) (objects : Objects) (c id : String) :
    ({ v with collections := v.collections.insert collection objects } : View).get c id =
      if collection = c then objects[id]? else v.get c id := by
  rw [View.get, ExtTreeMap.getElem?_insert]
  by_cases h : collection = c
  · simp [h]
  · simp [h, View.get]

theorem Write.Carries.getObject {db : Db} {ctx : Ctx} (h : w.Carries lib db ctx event) :
    (∃ e, w.effect.apply lib db.toStore = (.error e, (w.effect.apply lib db.toStore).2) ∧
      ∀ c id, (w.effect.apply lib db.toStore).2.view.get c id = db.getObject c id) ∨
    (w.effect.apply lib db.toStore =
        (.ok (.bool true), (w.effect.apply lib db.toStore).2) ∧
      ∀ c id, (w.effect.apply lib db.toStore).2.view.get c id =
        if event.collection = c ∧ event.id = id then event.after else db.getObject c id) := by
  obtain ⟨mutation, heffect, hfinds, hact, hindexable⟩ := h.mutates
  rw [heffect]
  cases hidx : mutation.indexable lib with
  | false =>
    obtain ⟨object, rfl⟩ := hindexable hidx
    left
    rw [Effect.apply, Mutation.apply]
    rcases (db.ensureCollectionCell event.collection).collection.upsert_cases lib.toFenceLib object
      with ⟨hyes, -⟩ | ⟨-, e, herr, hcell⟩
    · exact absurd (hidx.symm.trans hyes) (by simp)
    · rcases hu : (db.ensureCollectionCell event.collection).collection.upsert lib.toFenceLib object
        with ⟨r, cell⟩
      rw [hu] at herr hcell
      subst herr hcell
      refine ⟨.index e, rfl, fun c id => ?_⟩
      rw [Store.view_setCell, View.get_setObjects, ← db.view_get]
      split
      next hc =>
        subst hc
        have hsame : ((db.ensureCollectionCell event.collection).collection.unindex
            object.id).objects = db.view.collections[event.collection]?.getD ∅ :=
          (Collection.objects_unindex _ _).trans (db.objects_ensureCollectionCell event.collection)
        rw [db.view_get, db.getObject_eq, ← hsame]
        rfl
      · rfl
  | true =>
    obtain ⟨hok, hview⟩ := Effect.apply_mutate db.toStore event.collection hidx
    refine .inr ⟨Prod.ext (hok.trans (by rw [hfinds])) rfl, fun c id => ?_⟩
    rw [hview, View.get_setObjects]
    by_cases hc : event.collection = c
    · subst hc
      rw [if_pos rfl, hact, db.getObject_eq]
      simp
    · rw [if_neg hc, if_neg (fun h => hc h.1), db.view_get]

theorem Write.apply_of_true {s s' : Store} (h : w.effect.apply lib s = (.ok (.bool true), s')) :
    w.apply lib s = (w.reply (.bool true), s'.applyPlanned w.planned) ∧
      w.published lib s = w.planned.flatMap PreparedMutation.events := by
  rw [Write.apply, Write.published, h]
  dsimp only
  constructor
  · split
    next hbool => cases hbool
    · rfl
  · split
    next hbool => cases hbool
    · rfl

theorem Write.published_of_error {s s' : Store} {e : CoreError}
    (h : w.effect.apply lib s = (.error e, s')) : w.published lib s = [] := by
  rw [Write.published, h]

variable (lib) in
/-- A call changes neither objects nor fences and publishes nothing, or all of that follows from
its mutation. -/
theorem Db.perform_edit (db : Db) (ctx : Ctx) {request : Request} (h : request.edits) :
    ((∀ c id, (db.perform lib ctx request).2.getObject c id = db.getObject c id) ∧
      (db.perform lib ctx request).2.geofences = db.geofences ∧
      db.published lib ctx request = [] ∧ (db.perform lib ctx request).1 ≠ .ok (.bool true)) ∨
    ∃ event, request.event? db ctx = some event ∧
      (db.perform lib ctx request).1 = .ok (.bool true) ∧
      (∀ c id, (db.perform lib ctx request).2.getObject c id =
        if event.collection = c ∧ event.id = id then event.after else db.getObject c id) ∧
      ((db.perform lib ctx request).2.geofences, db.published lib ctx request) =
        db.geofences.evaluateMutation lib.toFenceLib (db.seen ctx event) := by
  have hplan := request.plan_carries lib db ctx h
  rw [Db.perform, Db.published]
  cases hp : request.plan lib db ctx with
  | done result =>
    rw [hp] at hplan
    exact .inl ⟨fun _ _ => rfl, rfl, rfl, hplan⟩
  | write w =>
    rw [hp] at hplan
    obtain ⟨event, hevent, hcarries⟩ := hplan
    rcases hpersist : db.persist lib ctx w.batch with ⟨r, db'⟩
    dsimp only
    have hstore : db'.toStore = db.toStore := by
      have hcases := db.persist_cases lib ctx w.batch
      rw [hpersist] at hcases
      rcases hcases with ⟨e, -, hun⟩ | ⟨-, -, hun⟩ | ⟨-, -, entries, hlogged, -⟩
      · exact hun.store
      · exact hun.store
      · exact hlogged.store
    rw [Db.finish, Db.commit]
    cases r with
    | error e =>
      rw [hpersist]
      refine .inl ⟨fun c id => ?_, congrArg Store.geofences hstore, rfl, error_ne_true e⟩
      show db'.getObject c id = _
      rw [Db.getObject, hstore, Db.getObject]
    | ok sequences =>
      rw [hpersist]
      dsimp only
      rw [hstore]
      have hget : ∀ (store : Store) (c id : String),
          ({ db' with toStore := store } : Db).getObject c id = store.view.get c id :=
        fun store c id => (Db.view_get { db' with toStore := store } c id).symm
      obtain ⟨mutation, heffect, -⟩ := hcarries.mutates
      rcases hcarries.getObject with ⟨e, herr, hsame⟩ | ⟨hok, hnew⟩
      · have happly : w.apply lib db.toStore = (.error e, (w.effect.apply lib db.toStore).2) :=
          Write.apply_of_error (by rw [herr])
        refine .inl ⟨fun c id => ?_, ?_, ?_, ?_⟩
        · rw [hget, happly, hsame]
        · rw [happly, heffect]
          exact Effect.geofences_mutate db.toStore event.collection mutation
        · exact Write.published_of_error herr
        · rw [happly]
          exact error_ne_true e
      · obtain ⟨happly, hpublished⟩ := Write.apply_of_true hok
        refine .inr ⟨event, hevent, ?_, fun c id => ?_, ?_⟩
        · rw [happly]
          exact hcarries.reply
        · rw [hget, happly]
          exact hnew c id
        · have hfences : (w.effect.apply lib db.toStore).2.geofences = db.geofences := by
            rw [heffect]
            exact Effect.geofences_mutate db.toStore event.collection mutation
          rw [happly, hpublished, ← hcarries.fences, ← hfences]
          rfl

end LatLng.Core
