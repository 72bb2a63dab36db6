import LatLng.Core.Compact
import LatLng.Core.Meaning

/-! What a call leaves alone: the objects, channels and hooks outside the collections and names
that it is about, in every state and whether it succeeds or fails. -/

namespace LatLng.Core

open Geo Geofence Storage Std ExtTreeMap

structure Scope where
  collections : Set String := ∅
  channels : Set String := ∅
  hooks : Set String := ∅

/-- Nothing outside the scope differs between two views. A collection without objects counts
as none. -/
structure View.Framed (scope : Scope) (v v' : View) : Prop where
  objects : ∀ c, c ∉ scope.collections → ∀ id, v'.get c id = v.get c id
  channels : ∀ name, name ∉ scope.channels → v'.channels[name]? = v.channels[name]?
  hooks : ∀ name, name ∉ scope.hooks → v'.hooks[name]? = v.hooks[name]?

namespace View.Framed

variable {scope : Scope} {v v' v'' : View}

theorem refl (scope : Scope) (v : View) : Framed scope v v :=
  ⟨fun _ _ _ => rfl, fun _ _ => rfl, fun _ _ => rfl⟩

theorem of_eq (h : v' = v) : Framed scope v v' := by
  rw [h]
  exact refl scope v

theorem trans (h : Framed scope v v') (h' : Framed scope v' v'') : Framed scope v v'' where
  objects c hc id := (h'.objects c hc id).trans (h.objects c hc id)
  channels name hname := (h'.channels name hname).trans (h.channels name hname)
  hooks name hname := (h'.hooks name hname).trans (h.hooks name hname)

end View.Framed

variable (lib : Lib)

def Effect.scope : Effect → Scope
  | .mutate collection _ => { collections := {collection} }
  | .createCollection _ => {}
  | .dropCollection collection => { collections := {collection} }
  | .rename collection newName => { collections := {collection, newName} }
  | .setChannel name _ => { channels := {name} }
  | .delChannel name => { channels := {name} }
  | .pdelChannel pattern => { channels := {name | lib.globMatch pattern name = true} }
  | .setHook name _ _ => { hooks := {name} }
  | .delHook name => { hooks := {name} }
  | .pdelHook pattern => { hooks := {name | lib.globMatch pattern name = true} }

def Request.scope (v : View) : Request → Scope
  | .createCollection _ => {}
  | .dropCollection collection => { collections := {collection} }
  | .rename collection newName => { collections := {collection, newName} }
  | .renamenx collection newName =>
    { collections := if v.collections.contains newName then ∅ else {collection, newName} }
  | .setchan name _ => { channels := {name} }
  | .delchan name => { channels := {name} }
  | .pdelchan pattern => { channels := {name | lib.globMatch pattern name = true} }
  | .sethook name _ _ => { hooks := {name} }
  | .delhook name => { hooks := {name} }
  | .pdelhook pattern => { hooks := {name | lib.globMatch pattern name = true} }
  | request => { collections := {c | request.collection? = some c} }

variable {lib}

/-! ### Effects -/

variable {v : View} {c c' : String}

theorem View.get_insert_of_ne (hne : c' ≠ c) (objects : Objects) (id : String) :
    ({ v with collections := v.collections.insert c objects } : View).get c' id = v.get c' id := by
  apply View.get_congr
  rw [getElem?_insert, if_neg]
  intro heq
  exact hne (LawfulEqCmp.eq_of_compare heq).symm

theorem View.get_erase_of_ne (hne : c' ≠ c) (id : String) :
    ({ v with collections := v.collections.erase c } : View).get c' id = v.get c' id := by
  apply View.get_congr
  rw [getElem?_erase, if_neg]
  intro heq
  exact hne (LawfulEqCmp.eq_of_compare heq).symm

theorem View.contains_of_get {id : String} {o : Object} (h : v.get c id = some o) :
    v.collections.contains c = true := by
  obtain ⟨objects, hc, -⟩ := Option.bind_eq_some_iff.1 h
  rw [contains_eq_isSome_getElem?, hc]
  rfl

theorem Store.get_setCell_of_ne (s : Store) (hne : c' ≠ c)
    (cell : VersionedCollection) (id : String) :
    (s.setCell c cell).view.get c' id = s.view.get c' id := by
  rw [s.view_setCell]
  exact View.get_insert_of_ne hne _ id

theorem Store.get_ensure (s : Store) (c c' id : String) :
    (s.setCell c (s.ensureCollectionCell c)).view.get c' id = s.view.get c' id := by
  by_cases hc : c' = c
  · subst hc
    rw [s.view_setCell, s.objects_ensureCollectionCell, View.get, View.get]
    rw [getElem?_insert_self]
    cases s.view.collections[c']? with
    | none => simp
    | some objects => rfl
  · exact s.get_setCell_of_ne hc _ id

theorem View.get_rename_outside (v : View) {newName : String}
    (hc' : c' ∉ ({c, newName} : Set String)) (id : String) :
    (v.rename c newName).get c' id = v.get c' id := by
  have hne : c' ≠ c := fun h => hc' (.inl h)
  have hne' : c' ≠ newName := fun h => hc' (.inr h)
  rw [rename]
  split
  · rfl
  next objects hc =>
    have herase := get_erase_of_ne hne id (v := v)
    rw [← herase]
    exact get_insert_of_ne hne' objects id (v := { v with collections := v.collections.erase c })

variable (lib) in
theorem Effect.get_outside (s : Store) (effect : Effect) {c : String}
    (hc : c ∉ (effect.scope lib).collections) (id : String) :
    (effect.apply lib s).2.view.get c id = s.view.get c id := by
  cases effect with
  | mutate c' m =>
    rw [Effect.apply]
    split
    · exact s.get_setCell_of_ne hc _ id
    · exact s.get_setCell_of_ne hc _ id
  | createCollection c' => exact s.get_ensure c' c id
  | dropCollection c' =>
    have hview : ((Effect.dropCollection c').apply lib s).2.view =
        { s.view with collections := s.view.collections.erase c' } := by
      simp only [Effect.apply, Store.view, Lib.map_erase]
    rw [hview]
    exact View.get_erase_of_ne hc id
  | rename c' newName =>
    have hview : ((Effect.rename c' newName).apply lib s).2.view = s.view.rename c' newName :=
      s.view_renameCell c' newName
    rw [hview]
    exact s.view.get_rename_outside hc id
  | _ => rfl

/-! ### Effects on fences -/

abbrev ChannelDefs := ExtTreeMap String (Unit × GeofenceDef)

abbrev HookDefs := ExtTreeMap String (String × GeofenceDef)

variable (lib) in
def Effect.channels (defs : ChannelDefs) : Effect → ChannelDefs
  | .setChannel name d => defs.insert name ((), d)
  | .delChannel name => defs.erase name
  | .pdelChannel pattern => defs.filter fun name _ => !lib.globMatch pattern name
  | _ => defs

variable (lib) in
def Effect.hooks (defs : HookDefs) : Effect → HookDefs
  | .setHook name endpoint d => defs.insert name (endpoint, d)
  | .delHook name => defs.erase name
  | .pdelHook pattern => defs.filter fun name _ => !lib.globMatch pattern name
  | _ => defs

variable (lib) in
theorem Effect.channels_view (s : Store) (effect : Effect) :
    (effect.apply lib s).2.view.channels = effect.channels lib s.view.channels := by
  cases effect with
  | mutate c m => exact congrArg (·.channels.defs) (Effect.mutate_frame lib s c m).1
  | rename c newName =>
    have hview := congrArg View.channels (s.view_renameCell c newName)
    refine hview.trans ?_
    rw [View.rename]
    split <;> rfl
  | _ => simp [Effect.apply, Store.view, Effect.channels, Store.setCell, Registry.setChannel,
      Registry.setHook]

variable (lib) in
theorem Effect.hooks_view (s : Store) (effect : Effect) :
    (effect.apply lib s).2.view.hooks = effect.hooks lib s.view.hooks := by
  cases effect with
  | mutate c m => exact congrArg (·.hooks.defs) (Effect.mutate_frame lib s c m).1
  | rename c newName =>
    have hview := congrArg View.hooks (s.view_renameCell c newName)
    refine hview.trans ?_
    rw [View.rename]
    split <;> rfl
  | _ => simp [Effect.apply, Store.view, Effect.hooks, Store.setCell, Registry.setChannel,
      Registry.setHook]

section Definitions

variable {ε : Type} (defs : ExtTreeMap String ε) {name other : String}

theorem getElem?_insert_of_ne (d : ε) (h : other ≠ name) :
    (defs.insert name d)[other]? = defs[other]? := by
  rw [getElem?_insert, if_neg]
  intro heq
  exact h (LawfulEqCmp.eq_of_compare heq).symm

theorem getElem?_erase_eq (name other : String) :
    (defs.erase name)[other]? = if other = name then none else defs[other]? := by
  by_cases h : other = name
  · subst h
    simp
  · simp [getElem?_erase, h, Ne.symm h]

theorem getElem?_filter_not (p : String → Bool) (other : String) :
    (defs.filter fun name _ => !p name)[other]? = if p other then none else defs[other]? := by
  rw [Lib.getElem?_filter_keys]
  cases p other <;> rfl

end Definitions

theorem dropped_cases {α : Type} {gone kept : Prop} {_ : Decidable gone} {old new : Option α}
    (h : new = if gone then none else old) : ¬ gone ∧ new = old ∨ gone ∧ (new = none ∨ kept) := by
  by_cases hgone : gone
  · exact .inr ⟨hgone, .inl (h.trans (if_pos hgone))⟩
  · exact .inl ⟨hgone, h.trans (if_neg hgone)⟩

variable (lib) in
theorem Effect.channels_cases (defs : ChannelDefs) (effect : Effect) (name : String) :
    (name ∉ (effect.scope lib).channels ∧ (effect.channels lib defs)[name]? = defs[name]?) ∨
    (name ∈ (effect.scope lib).channels ∧ ((effect.channels lib defs)[name]? = none ∨
      ∃ d, effect = .setChannel name d ∧ (effect.channels lib defs)[name]? = some ((), d))) := by
  cases effect with
  | setChannel name' d =>
    by_cases h : name = name'
    · subst h
      exact .inr ⟨rfl, .inr ⟨d, rfl, getElem?_insert_self⟩⟩
    · exact .inl ⟨h, getElem?_insert_of_ne defs _ h⟩
  | delChannel name' => exact dropped_cases (getElem?_erase_eq defs name' name)
  | pdelChannel pattern => exact dropped_cases (getElem?_filter_not defs _ name)
  | _ => exact .inl ⟨Set.notMem_empty name, rfl⟩

variable (lib) in
theorem Effect.hooks_cases (defs : HookDefs) (effect : Effect) (name : String) :
    (name ∉ (effect.scope lib).hooks ∧ (effect.hooks lib defs)[name]? = defs[name]?) ∨
    (name ∈ (effect.scope lib).hooks ∧ ((effect.hooks lib defs)[name]? = none ∨
      ∃ endpoint d, effect = .setHook name endpoint d ∧
        (effect.hooks lib defs)[name]? = some (endpoint, d))) := by
  cases effect with
  | setHook name' endpoint d =>
    by_cases h : name = name'
    · subst h
      exact .inr ⟨rfl, .inr ⟨endpoint, d, rfl, getElem?_insert_self⟩⟩
    · exact .inl ⟨h, getElem?_insert_of_ne defs _ h⟩
  | delHook name' => exact dropped_cases (getElem?_erase_eq defs name' name)
  | pdelHook pattern => exact dropped_cases (getElem?_filter_not defs _ name)
  | _ => exact .inl ⟨Set.notMem_empty name, rfl⟩

variable (lib) in
theorem Effect.framed (s : Store) (effect : Effect) :
    View.Framed (effect.scope lib) s.view (effect.apply lib s).2.view where
  objects _ hc id := effect.get_outside lib s hc id
  channels name hname := by
    rw [effect.channels_view]
    rcases effect.channels_cases lib s.view.channels name with ⟨-, h⟩ | ⟨hmem, -⟩
    · exact h
    · exact absurd hmem hname
  hooks name hname := by
    rw [effect.hooks_view]
    rcases effect.hooks_cases lib s.view.hooks name with ⟨-, h⟩ | ⟨hmem, -⟩
    · exact h
    · exact absurd hmem hname

/-! ### The effect that a request asks for -/

def Request.Asks (v : View) (request : Request) : Effect → Prop
  | .mutate c _ => request.collection? = some c
  | .createCollection c => request = .createCollection c
  | .dropCollection c => request = .dropCollection c
  | .rename c newName => request = .rename c newName ∨
    request = .renamenx c newName ∧ v.collections.contains newName = false
  | .setChannel name d => request = .setchan name d
  | .delChannel name => request = .delchan name
  | .pdelChannel pattern => request = .pdelchan pattern
  | .setHook name endpoint d => request = .sethook name endpoint d
  | .delHook name => request = .delhook name
  | .pdelHook pattern => request = .pdelhook pattern

variable {request : Request}

variable (lib) in
theorem Request.Asks.scope {v : View} {effect : Effect}
    (h : request.Asks v effect) : effect.scope lib = request.scope lib v := by
  have hmutate : ∀ c, ({ collections := {c} } : Scope) = { collections := {c' | some c = some c'} } := by
    intro c
    congr 1
    ext c'
    exact ⟨fun h => congrArg some h.symm, fun h => (Option.some.inj h).symm⟩
  cases effect with
  | mutate c m =>
    change request.collection? = some c at h
    cases request <;> cases h <;> exact hmutate _
  | rename c newName =>
    rcases h with rfl | ⟨rfl, hnew⟩
    · rfl
    · rw [Request.scope, hnew]
      rfl
  | _ =>
    cases h
    rfl

def Plan.Asked (v : View) (request : Request) : Plan → Prop
  | .done _ => True
  | .write w => request.Asks v w.effect

variable {plan : Plan}

theorem Request.Planned.asked {db : Db} {ctx : Ctx} {shared : Bool}
    (h : request.Planned lib db ctx shared plan) : plan.Asked db.view request := by
  cases h with
  | refused e => trivial
  | idle hidle => trivial
  | edit hedit hread hwebhooks => cases hedit <;> exact rfl
  | record hrecord =>
    cases hrecord with
    | rename c newName => exact .inl rfl
    | renamenx c hnew =>
      refine .inr ⟨rfl, ?_⟩
      rwa [db.contains_view, ← contains_eq_isSome_getElem?]
    | _ => exact rfl
  | json hjson hc ho hgeo hchange => cases hjson <;> exact rfl
  | drop hc hevents => exact rfl

variable (lib) in
theorem Request.plan_asked (db : Db) (ctx : Ctx) (request : Request) :
    (request.plan lib db ctx).Asked db.view request := by
  obtain ⟨shared, hplanned⟩ := request.plan_planned lib db ctx
  exact hplanned.asked

/-! ### Calls -/

theorem Write.view_apply (w : Write) (s : Store) :
    (w.apply lib s).2.view = (w.effect.apply lib s).2.view := by
  cases h : (w.effect.apply lib s).1 with
  | error e => rw [Write.apply_of_error h]
  | ok answer => exact (Write.apply_of_ok h).2.2

variable (lib) in
theorem Plan.Asked.view {db : Db} (h : plan.Asked db.view request) (ctx : Ctx) :
    (db.finish lib ctx plan).2.view = db.view ∨
      ∃ effect, request.Asks db.view effect ∧
        (db.finish lib ctx plan).2.view = (effect.apply lib db.toStore).2.view := by
  cases plan with
  | done result => exact .inl rfl
  | write w =>
    rcases db.commit_cases lib ctx w with ⟨e, -, hun, -⟩ | ⟨db', -, hcommit⟩
    · exact .inl (congrArg Store.view hun.store)
    · refine .inr ⟨w.effect, h, ?_⟩
      rw [Db.finish, hcommit]
      exact w.view_apply db.toStore

theorem Plan.Asked.framed {db : Db} (h : plan.Asked db.view request) (ctx : Ctx) :
    View.Framed (request.scope lib db.view) db.view (db.finish lib ctx plan).2.view := by
  rcases h.view lib ctx with hview | ⟨effect, hasks, hview⟩
  · exact .of_eq hview
  · rw [hview, ← hasks.scope lib]
    exact effect.framed lib db.toStore

namespace Db

variable (lib) in
theorem perform_framed (db : Db) (ctx : Ctx) (request : Request) :
    View.Framed (request.scope lib db.view) db.view (db.perform lib ctx request).2.view :=
  (request.plan_asked lib db ctx).framed ctx

theorem delExclusive_framed (db : Db) (ctx : Ctx) (collection id : String) :
    View.Framed { collections := {collection} } db.view
      (db.finish lib ctx (db.delExclusive lib ctx collection id)).2.view := by
  have hasked : (db.delExclusive lib ctx collection id).Asked db.view (.del collection id) :=
    (Request.exclusivePlan_planned lib db ctx (.del collection id)).asked
  have hscope : ({ collections := {collection} } : Scope) =
      (Request.del collection id).scope lib db.view :=
    Request.Asks.scope lib
      (show (Request.del collection id).Asks db.view (.mutate collection (.remove id)) from rfl)
  rw [hscope]
  exact hasked.framed ctx

variable (lib) in
theorem pdel_framed (db : Db) (ctx : Ctx) (collection pattern : String) :
    View.Framed { collections := {collection} } db.view
      (db.pdel lib ctx collection pattern).2.view := by
  let P := fun db' : Db => View.Framed { collections := {collection} } db.view db'.view
  have hdel : ∀ db' id, P db' →
      Ends P P (db'.finish lib ctx (db'.delExclusive lib ctx collection id)) :=
    fun db' id h => .of_snd (h.trans (db'.delExclusive_framed ctx collection id))
  exact (Db.pdel_ends hdel (fun _ h => h) (.refl _ _) pattern).same

end Db

/-! ### New definitions -/

structure Definitions where
  channels : Set (String × GeofenceDef) := ∅
  hooks : Set (String × GeofenceDef) := ∅

structure View.Adds (new : Definitions) (v v' : View) : Prop where
  channels : ∀ name d, v'.channels[name]? = some d →
    v.channels[name]? = some d ∨ (name, d.2) ∈ new.channels
  hooks : ∀ name d, v'.hooks[name]? = some d →
    v.hooks[name]? = some d ∨ (name, d.2) ∈ new.hooks

def Call.defines : Call → Definitions
  | .request (.setchan name d) => { channels := {(name, d)} }
  | .request (.sethook name _ d) => { hooks := {(name, d)} }
  | .applyReplicatedEntries _ => { channels := Set.univ, hooks := Set.univ }
  | _ => {}

namespace View.Adds

variable {new : Definitions} {v v' : View}

theorem of_view (h : v' = v) : Adds new v v' := by
  rw [h]
  exact ⟨fun _ _ => .inl, fun _ _ => .inl⟩

theorem of_framed {touched : Set String} (h : Framed { collections := touched } v v') :
    Adds new v v' where
  channels name _ hd := .inl ((h.channels name (Set.notMem_empty name)).symm.trans hd)
  hooks name _ hd := .inl ((h.hooks name (Set.notMem_empty name)).symm.trans hd)

theorem of_empty (h : v' = {}) : Adds new v v' := by
  rw [h]
  refine ⟨fun name d hd => ?_, fun name d hd => ?_⟩
  · cases hd
  · cases hd

end View.Adds

variable (lib) in
theorem Effect.adds (s : Store) {effect : Effect} (hasks : request.Asks s.view effect) :
    View.Adds (Call.request request).defines s.view (effect.apply lib s).2.view where
  channels name d hd := by
    rw [effect.channels_view] at hd
    rcases effect.channels_cases lib s.view.channels name with
      ⟨-, hsame⟩ | ⟨-, hnone | ⟨new, rfl, hnew⟩⟩
    · exact .inl (hsame.symm.trans hd)
    · cases hnone.symm.trans hd
    · cases hnew.symm.trans hd
      cases hasks
      exact .inr rfl
  hooks name d hd := by
    rw [effect.hooks_view] at hd
    rcases effect.hooks_cases lib s.view.hooks name with
      ⟨-, hsame⟩ | ⟨-, hnone | ⟨endpoint, new, rfl, hnew⟩⟩
    · exact .inl (hsame.symm.trans hd)
    · cases hnone.symm.trans hd
    · cases hnew.symm.trans hd
      cases hasks
      exact .inr rfl

namespace Db

variable (db : Db) (ctx : Ctx)

theorem expireDue_framed (nowMs max : Nat) :
    View.Framed { collections := Set.univ } db.view (db.expireDue lib ctx nowMs max).2.view := by
  let P := fun db' : Db => View.Framed { collections := Set.univ } db.view db'.view
  have hdel : ∀ db' collection id, P db' →
      Ends P P (db'.finish lib ctx (db'.delExclusive lib ctx collection id)) := by
    intro db' collection id h
    have hone := @delExclusive_framed lib db' ctx collection id
    refine .of_snd (h.trans ⟨?_, hone.channels, hone.hooks⟩)
    exact fun c hc => absurd (Set.mem_univ c) hc
  exact (Db.expireDue_ends hdel (fun _ _ h => h) (.refl _ _) nowMs max).same

theorem flushdb_view :
    (db.flushdb lib ctx).2.view = db.view ∨ (db.flushdb lib ctx).2.view = {} := by
  rcases db.flushdb_steps lib ctx with ⟨e, -, hun⟩ | ⟨db', -, -, hr⟩
  · exact .inl (congrArg Store.view hun.store)
  · rw [hr]
    exact .inr (Store.view_clear _)

theorem resetReplicationState_view : db.resetReplicationState.2.view = {} := by
  rw [resetReplicationState]
  split <;> exact db.view_clear

variable (lib) in
theorem call_adds (call : Call) : View.Adds call.defines db.view (db.call lib ctx call).2.view := by
  cases call with
  | request request =>
    rcases (request.plan_asked lib db ctx).view lib ctx with hview | ⟨effect, hasks, hview⟩
    · exact .of_view hview
    · have hadds := Effect.adds lib db.toStore hasks
      rw [← hview] at hadds
      exact hadds
  | pdel collection pattern => exact .of_framed (db.pdel_framed lib ctx collection pattern)
  | expireDue nowMs max => exact .of_framed (db.expireDue_framed ctx nowMs max)
  | flushdb =>
    rcases @flushdb_view lib db ctx with hview | hview
    · exact .of_view hview
    · exact .of_empty hview
  | aofshrink => exact .of_view (congrArg Store.view (db.toStore_rewriteLogSnapshot ctx _))
  | appendLogRecords records =>
    exact .of_view (congrArg Store.view (db.toStore_appendLogRecords ctx records))
  | rewriteLogSnapshot records =>
    exact .of_view (congrArg Store.view (db.toStore_rewriteLogSnapshot ctx records))
  | resetReplicationState => exact .of_empty db.resetReplicationState_view
  | applyReplicatedEntries entries =>
    exact ⟨fun name d _ => .inr (Set.mem_univ _), fun name d _ => .inr (Set.mem_univ _)⟩
  | gc => exact ⟨fun _ _ => .inl, fun _ _ => .inl⟩
  | _ => exact .of_view rfl

end Db

end LatLng.Core
