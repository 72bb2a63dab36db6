import LatLng.Core.Commit

/-! What a call means: the commands it carries out on the view it finds. A call on an object
reads and changes its own collection only. -/

namespace LatLng.Core

open Geo Geofence Storage Std ExtTreeMap Request

def Request.collection? : Request → Option String
  | .set req => some req.collection
  | .del collection _ => some collection
  | .fset collection _ _ _ => some collection
  | .expire collection _ _ => some collection
  | .persist collection _ => some collection
  | .jset collection _ _ _ _ => some collection
  | .jdel collection _ _ => some collection
  | _ => none

def Request.commands (ctx : Ctx) (v : View) : Request → List Command
  | .set req =>
    match req.condition, v.get req.collection req.id with
    | .nx, some _ => []
    | .xx, none => []
    | _, before => [Db.setRecord req (Db.setObject ctx req before)]
  | .del c id => if (v.get c id).isSome then [.del c id] else []
  | .fset c id fields xx => if (v.get c id).isSome then [.fset c id fields xx] else []
  | .expire c id seconds =>
    if (v.get c id).isSome then [.expireAt c id (deadlineAfter ctx.nowMs seconds)] else []
  | .persist c id => if (v.get c id).isSome then [.persist c id] else []
  | .jset c id path value raw =>
    match v.get c id with
    | none => []
    | some o => .jset c id path value raw :: if o.expiresAt.isSome then [.persist c id] else []
  | .jdel c id path =>
    match v.get c id with
    | none => []
    | some o => .jdel c id path :: if o.expiresAt.isSome then [.persist c id] else []
  | .createCollection c => if v.collections.contains c then [] else [.createCollection c]
  | .dropCollection c => if v.collections.contains c then [.dropCollection c] else []
  | .rename c newName => [.rename c newName]
  | .renamenx c newName => if v.collections.contains newName then [] else [.rename c newName]
  | .setchan name d => [.setChannel name d]
  | .delchan name => [.delChannel name]
  | .pdelchan pattern => [.pdelChannel pattern]
  | .sethook name endpoint d => [.setHook name endpoint d]
  | .delhook name => [.delHook name]
  | .pdelhook pattern => [.pdelHook pattern]

/-- A plan for a call that means the given commands. A call that has nothing to do answers
`false`. -/
def Plan.Means (commands : List Command) : Plan → Prop
  | .done result => ∀ a, result = .ok a → a = .bool false ∧ commands = []
  | .write w => w.batch.commands = commands

variable {lib : Lib}

theorem Plan.means_error {commands : List Command} {e : CoreError} :
    (Plan.done (.error e)).Means commands := nofun

theorem Plan.means_false {commands : List Command} (h : commands = []) :
    (Plan.done (.ok (.bool false))).Means commands := by
  intro a ha
  cases ha
  exact ⟨rfl, h⟩

variable {v v' : View} {c : String}

theorem View.get_congr (h : v.collections[c]? = v'.collections[c]?)
    (id : String) : v.get c id = v'.get c id := by
  rw [View.get, View.get, h]

variable {request : Request}

theorem Request.commands_congr (hc : request.collection? = some c)
    (h : v.collections[c]? = v'.collections[c]?) (ctx : Ctx) :
    request.commands ctx v = request.commands ctx v' := by
  cases request with
  | set req | del _ _ | fset _ _ _ _ | expire _ _ _ | persist _ _ | jset _ _ _ _ _ | jdel _ _ _ =>
    cases hc
    rw [commands, commands, View.get_congr h]
  | _ => cases hc

/-! ### Plans mean what the view says -/

theorem Db.contains_view (db : Db) (c : String) :
    db.view.collections.contains c = db.collections[c]?.isSome := by
  rw [contains_eq_isSome_getElem?, Store.collections_view, Option.isSome_map]

variable {db : Db} {ctx : Ctx}

theorem Request.commands_set (req : SetRequest) : (set req).commands ctx v =
    if req.stops v then []
    else [Db.setRecord req (Db.setObject ctx req (v.get req.collection req.id))] := by
  rw [commands, SetRequest.stops]
  cases req.condition <;> cases v.get req.collection req.id <;> rfl

theorem Request.Idle.commands (h : request.Idle db) : request.commands ctx db.view = [] := by
  cases request with
  | set req =>
    change req.stops db.view = true at h
    rw [commands_set, if_pos h]
  | del c id | fset c id fields xx =>
    rw [commands, db.view_get, show db.getObject c id = none from h]
    rfl
  | createCollection c =>
    rw [commands, db.contains_view, show db.collections[c]?.isSome = true from h]
    rfl
  | dropCollection c =>
    rw [commands, db.contains_view, show db.collections[c]? = none from h]
    rfl
  | renamenx c newName =>
    rw [commands, db.contains_view, ← contains_eq_isSome_getElem?,
      show db.collections.contains newName = true from h]
    rfl
  | _ => cases h

variable {plan : Plan}

theorem Request.Planned.means {shared : Bool} (h : request.Planned lib db ctx shared plan) :
    plan.Means (request.commands ctx db.view) := by
  cases h with
  | refused e => exact Plan.means_error
  | idle h => exact Plan.means_false h.commands
  | edit h hread hwebhooks =>
    cases h with
    | set hgo hobject =>
      cases hobject
      rw [commands_set, if_neg (Bool.eq_false_iff.1 hgo), db.view_get]
      rfl
    | del hget | fset hget hreply =>
      rw [commands, db.view_get, hget]
      rfl
  | record h =>
    cases h with
    | @set req object hobject halways hvolatile hunseen =>
      cases hobject
      rw [commands_set, if_neg (by simp [SetRequest.stops, halways]), db.view_get]
      rfl
    | expire hc ho hreply | persist hc ho hreply =>
      rw [commands, Db.isSome_get hc ho]
      rfl
    | createCollection hnone =>
      rw [commands, db.contains_view, hnone]
      rfl
    | renamenx c hnew =>
      rw [commands, db.contains_view, ← contains_eq_isSome_getElem?, hnew]
      rfl
    | _ => rfl
  | @json _ _ _ _ _ _ object _ _ _ _ h hc ho hgeo hchange =>
    have hget := Db.isSome_get hc ho
    cases h
    all_goals
      rw [commands, hget]
      dsimp only
      cases object.expiresAt <;> rfl
  | drop hc h =>
    rw [commands, db.contains_view, hc]
    rfl

variable (lib) in
theorem Request.exclusivePlan_means (db : Db) (ctx : Ctx) (request : Request) :
    (request.exclusivePlan lib db ctx).Means (request.commands ctx db.view) :=
  (request.exclusivePlan_planned lib db ctx).means

theorem Request.localPlan_means (h : request.localPlan lib db ctx = some plan) :
    plan.Means (request.commands ctx db.view) :=
  (localPlan_planned h).means

/-! ### The part of the state a call concerns -/

structure Write.Local (db : Db) (c : String) (w : Write) : Prop where
  effect : ∃ m, w.effect = .mutate c m
  version : ∃ cell, db.collections[c]? = some cell ∧ w.version = some cell.version

def Plan.Local (db : Db) (c : String) : Plan → Prop
  | .done _ => True
  | .write w => w.Local db c

theorem Request.localPlan_local (h : request.localPlan lib db ctx = some plan)
    (hc : request.collection? = some c)
    (hstores : db.storage.storesCommandLog) : plan.Local db c := by
  have hplanned := localPlan_planned h
  clear h
  cases hplanned with
  | refused e => trivial
  | idle h => trivial
  | edit h hread hwebhooks => cases h <;> cases hc <;> exact ⟨⟨_, rfl⟩, hread⟩
  | record h =>
    cases h with
    | set hobject halways hvolatile hunseen => cases hvolatile.symm.trans hstores
    | expire hcell ho hreply | persist hcell ho hreply =>
      cases hc
      exact ⟨⟨_, rfl⟩, _, hcell, rfl⟩
    | _ => cases hc
  | json h hcell ho hgeo hchange => cases h <;> cases hc <;> exact ⟨⟨_, rfl⟩, _, hcell, rfl⟩
  | drop hcell h => cases hc

variable (lib) in
theorem Effect.mutate_frame (s : Store) (c : String) (m : Mutation) :
    ((Effect.mutate c m).apply lib s).2.geofences = s.geofences ∧
      ∀ c', c' ≠ c →
        ((Effect.mutate c m).apply lib s).2.collections[c']? = s.collections[c']? := by
  have hset : ∀ cell c', c' ≠ c → (s.setCell c cell).collections[c']? = s.collections[c']? := by
    intro cell c' hne
    rw [Store.setCell, getElem?_insert,
      if_neg fun heq => hne (LawfulEqCmp.eq_of_compare heq).symm]
  rw [Effect.apply]
  split <;> exact ⟨rfl, hset _⟩

variable {aim : Aim} {m : Mutation}

theorem Intends.congr {commands : List Command} (h : Intends lib v aim commands (.mutate c m))
    (hv : v.collections[c]? = v'.collections[c]?) : Intends lib v' aim commands (.mutate c m) := by
  have hget := View.get_congr hv
  cases h with
  | set record haim => exact .set record haim
  | del hsome => exact .del (hget _ ▸ hsome)
  | fset fields xx hsome => exact .fset fields xx (hget _ ▸ hsome)
  | expireAt deadline hsome => exact .expireAt deadline (hget _ ▸ hsome)
  | persist hsome => exact .persist (hget _ ▸ hsome)
  | jset ho hgeo hedit haim => exact .jset (hget _ ▸ ho) hgeo hedit haim
  | jdel ho hgeo hedit haim => exact .jdel (hget _ ▸ ho) hgeo hedit haim

theorem Intends.of_missing {commands : List Command} {effect : Effect}
    (h : Intends lib v aim commands effect) (hm : effect = .mutate c m)
    (hc : v.collections[c]? = none) :
    ∃ record : PersistedSetRecord, commands = [.setPersisted record] ∧ c = record.collection ∧
      ∀ v', Intends lib v' aim commands effect := by
  have hnone : ∀ id, v.get c id = none := by
    intro id
    rw [View.get, hc]
    rfl
  cases h with
  | set record haim =>
    cases hm
    exact ⟨record, rfl, rfl, fun _ => .set record haim⟩
  | del hsome | fset fields xx hsome | expireAt deadline hsome | persist hsome =>
    cases hm
    rw [hnone] at hsome
    cases hsome
  | jset hget hgeo hedit haim | jdel hget hgeo hedit haim =>
    cases hm
    cases (hnone _).symm.trans hget
  | _ => cases hm

theorem View.upsert_insert_empty (hc : v.collections[c]? = none) (object : Object) :
    ({ v with collections := v.collections.insert c ∅ } : View).upsert c object =
      v.upsert c object := by
  rw [View.upsert, View.upsert, hc, Option.getD_none]
  rw [getElem?_insert_self, Option.getD_some, Lib.insert_insert]

theorem Write.Intended.congr {w : Write} (h : w.Intended lib v aim)
    (heffect : w.effect = .mutate c m)
    (hv : v.collections[c]? = v'.collections[c]?) : w.Intended lib v' aim := by
  refine ⟨?_, h.replies⟩
  have hi := h.intends
  rw [heffect] at hi ⊢
  exact hi.congr hv

def View.ActsAt (c : String) (f : View → View) : Prop :=
  ∃ act : Option Objects → Option Objects,
    ∀ v, f v = { v with collections := v.collections.alter c act }

namespace View.ActsAt

variable {c c' : String} {f g : View → View}

theorem comp (hf : ActsAt c f) (hg : ActsAt c g) : ActsAt c fun v => g (f v) := by
  obtain ⟨a, ha⟩ := hf
  obtain ⟨b, hb⟩ := hg
  refine ⟨b ∘ a, fun v => ?_⟩
  have halter : (v.collections.alter c a).alter c b = v.collections.alter c (b ∘ a) := by
    apply ext_getElem?
    intro other
    rw [getElem?_alter, getElem?_alter_self,
      getElem?_alter, getElem?_alter]
    split <;> rfl
  change g (f v) = _
  rw [hb, ha, halter]

theorem comm (hf : ActsAt c f) (hg : ActsAt c' g) (hne : c ≠ c') (v : View) :
    f (g v) = g (f v) := by
  obtain ⟨a, ha⟩ := hf
  obtain ⟨b, hb⟩ := hg
  have halter : (v.collections.alter c' b).alter c a = (v.collections.alter c a).alter c' b := by
    apply ext_getElem?
    intro other
    simp only [getElem?_alter, LawfulEqCmp.compare_eq_iff_eq]
    by_cases h : c = other
    · subst h
      simp [hne.symm]
    · by_cases h' : c' = other
      · subst h'
        simp [hne]
      · simp [h, h']
  rw [ha, hb, hb, ha, halter]

theorem upsert (c : String) (object : Object) : ActsAt c (·.upsert c object) := by
  refine ⟨fun objects => some ((objects.getD ∅).insert object.id object), fun v => ?_⟩
  change View.mk _ _ _ = _
  congr 1
  apply ext_getElem?
  intro other
  rw [getElem?_insert, getElem?_alter]

theorem update (c : String) (f : Objects → Objects) : ActsAt c (·.update c f) := by
  refine ⟨Option.map f, fun v => ?_⟩
  change View.mk _ _ _ = _
  congr 1
  apply ext_getElem?
  intro other
  rw [getElem?_modify, getElem?_alter]

end View.ActsAt

theorem Intends.actsAt {commands : List Command} (h : Intends lib v aim commands (.mutate c m))
    (now : Nat) : View.ActsAt c (commands.foldl (View.apply lib now)) := by
  have hedit : ∀ {id : String} {command : Command} {edit : Objects → Objects} {ttl : Bool},
      (∀ v : View, v.apply lib now command = v.update c edit) →
      View.ActsAt c ((command :: if ttl then [.persist c id] else []).foldl
        (View.apply lib now)) := by
    intro id command edit ttl hcommand
    have hfirst : View.ActsAt c (View.apply lib now · command) := by
      obtain ⟨act, hact⟩ := View.ActsAt.update c edit
      exact ⟨act, fun v => (hcommand v).trans (hact v)⟩
    cases ttl with
    | false => exact hfirst
    | true => exact hfirst.comp (View.ActsAt.update c _)
  cases h with
  | set record haim => exact View.ActsAt.upsert _ _
  | jset hget hgeo hedit' haim => exact hedit fun _ => rfl
  | jdel hget hgeo hedit' haim => exact hedit fun _ => rfl
  | _ => exact View.ActsAt.update c _

end LatLng.Core
