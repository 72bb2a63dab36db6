import LatLng.Auth.Principal
import LatLng.Core.Frame
import LatLng.Core.Sample
import LatLng.Lib.Schedule

/-! Requests of many principals on one server. A handler first checks what the principal may do
and then calls the database; other requests may get in between. What a principal changes or
removes should belong to collections on which it holds the right for that. -/

namespace LatLng.Auth

open LatLng.Core Geofence List
open LatLng.Lib (StepsMeet runSteps runSteps_invariant)

inductive Operation where
  | write (request : Request)
  | pdel (collection pattern : String)
  /-- An operational route, such as FLUSHDB or GC. -/
  | admin (call : Call)

namespace Operation

def call : Operation → Call
  | write request => .request request
  | pdel collection pattern => .pdel collection pattern
  | admin call => call

def rights : Operation → List (AuthAction × String)
  | write request => requiredRights request
  | pdel collection _ => [(.objectsDelete, collection)]
  | admin _ => []

def objectRight : Operation → Option AuthAction
  | write request => Auth.objectRight request
  | pdel _ _ => some .objectsDelete
  | admin _ => none

def deletes (lib : Lib) : Operation → Scope
  | write (.delchan name) => { channels := {name} }
  | write (.pdelchan pattern) => { channels := {name | lib.globMatch pattern name = true} }
  | write (.delhook name) => { hooks := {name} }
  | write (.pdelhook pattern) => { hooks := {name | lib.globMatch pattern name = true} }
  | _ => {}

end Operation

inductive Stage where
  | arrived
  /-- PDELCHAN has listed the names and looks up one definition after the other. -/
  | looking (names : List String) (found : List GeofenceDef)
  | cleared

structure Task where
  principal : AuthPrincipal
  operation : Operation
  stage : Stage := .arrived

structure Server where
  db : Db
  /-- A follower that is catching up serves no queries. -/
  queriesAllowed : Bool := true
  tasks : List Task := []

/-- What can happen next: a request comes in, a handler goes on with its check, or calls the
database; background work calls it too. -/
inductive Event where
  | arrive (principal : AuthPrincipal) (operation : Operation)
  | check (task : Nat)
  | act (ctx : Ctx) (task : Nat)
  | background (ctx : Ctx) (call : Call)
  | queries (allowed : Bool)

variable (lib : Lib)

def AuthPrincipal.managesChannel (principal : AuthPrincipal) (d : GeofenceDef) : Bool :=
  principal.allows lib.globMatch .channelsManage d.collection

def AuthPrincipal.managesHook (principal : AuthPrincipal) (d : GeofenceDef) : Bool :=
  principal.allows lib.globMatch .hooksManage d.collection

def clearedIf (allowed : Bool) : Option Stage := if allowed then some .cleared else none

def Operation.check (principal : AuthPrincipal) (v : View) (queriesAllowed : Bool) :
    Operation → Option Stage
  | .write (.delchan name) =>
    clearedIf (v.channels[name]?.all fun d => principal.managesChannel lib d.2)
  | .write (.pdelchan pattern) =>
    if queriesAllowed then some (.looking (v.channels.keys.filter (lib.globMatch pattern)) [])
    else none
  | .write (.delhook name) =>
    clearedIf (v.hooks[name]?.all fun d => principal.managesHook lib d.2)
  | .write (.pdelhook pattern) =>
    -- without queries the list of hooks is taken to be empty
    let hooks := if queriesAllowed then
      v.hooks.toList.filter fun hook => lib.globMatch pattern hook.1 else []
    clearedIf (hooks.all fun hook => principal.managesHook lib hook.2.2)
  | .admin _ => clearedIf principal.ensureAdmin
  | operation => clearedIf (principal.holdsAll lib.globMatch operation.rights)

def Task.check (task : Task) (v : View) (queriesAllowed : Bool) : Option Stage :=
  match task.stage with
  | .arrived => task.operation.check lib task.principal v queriesAllowed
  | .looking (name :: names) found =>
    some (.looking names (found ++ (v.channels[name]?.map Prod.snd).toList))
  | .looking [] found => clearedIf (found.all (task.principal.managesChannel lib))
  | .cleared => some .cleared

def Server.step : Event → Server → Option Server
  | .arrive principal operation, s =>
    some { s with tasks := s.tasks ++ [{ principal, operation }] }
  | .check i, s =>
    match s.tasks[i]? with
    | none => none
    | some task =>
      match task.check lib s.db.view s.queriesAllowed with
      | none => some { s with tasks := s.tasks.eraseIdx i }
      | some stage => some { s with tasks := s.tasks.set i { task with stage } }
  | .act ctx i, s =>
    match s.tasks[i]? with
    | some { principal := _, operation, stage := .cleared } =>
      some { s with db := (s.db.call lib ctx operation.call).2, tasks := s.tasks.eraseIdx i }
    | _ => none
  | .background ctx call, s => some { s with db := (s.db.call lib ctx call).2 }
  | .queries allowed, s => some { s with queriesAllowed := allowed }

/-- Whatever existed in the first view and is changed or gone in the second belongs to a
collection on which the principal holds the right that goes with the operation. -/
structure Respects (principal : AuthPrincipal) (operation : Operation) (v v' : View) : Prop where
  objects : ∀ c id o, v.get c id = some o → v'.get c id ≠ some o →
    ∃ action ∈ operation.objectRight, principal.allows lib.globMatch action c = true
  channels : ∀ (name : String) d, v.channels[name]? = some d → v'.channels[name]? ≠ some d →
    principal.managesChannel lib d.2 = true
  hooks : ∀ (name : String) d, v.hooks[name]? = some d → v'.hooks[name]? ≠ some d →
    principal.managesHook lib d.2 = true

/-! ### Runs in which nothing slips past a check -/

def Operation.Owns (principal : AuthPrincipal) (v : View) : Operation → Prop
  | .write (.rename _ newName) => v.collections.contains newName = true →
    principal.allows lib.globMatch .collectionsDelete newName = true
  | .write (.setchan name _) => ∀ d : Unit × GeofenceDef, v.channels[name]? = some d →
    principal.managesChannel lib d.2 = true
  | .write (.sethook name _ _) => ∀ d : String × GeofenceDef, v.hooks[name]? = some d →
    principal.managesHook lib d.2 = true
  | .admin _ => False
  | _ => True

def Stage.isPending : Stage → Bool
  | .arrived => false
  | _ => true

/-- A fence that the call defines while its deletion is being carried out is one that the
deleting principal may delete. -/
def Task.Undisturbed (call : Call) (task : Task) : Prop :=
  task.stage.isPending = true →
    (∀ name d, (name, d) ∈ call.defines.channels → name ∈ (task.operation.deletes lib).channels →
      task.principal.managesChannel lib d = true) ∧
    (∀ name d, (name, d) ∈ call.defines.hooks → name ∈ (task.operation.deletes lib).hooks →
      task.principal.managesHook lib d = true)

def Guarded : Event → Server → Prop
  | .arrive _ _, _ => True
  | .check i, s => ∀ task, s.tasks[i]? = some task → ∀ pattern,
    task.operation = .write (.pdelhook pattern) → s.queriesAllowed = true
  | .act _ i, s => ∀ task, s.tasks[i]? = some task →
    (task.principal.admin = false → task.operation.Owns lib task.principal s.db.view) ∧
      ∀ other ∈ s.tasks, other.Undisturbed lib task.operation.call
  | .background _ call, s => ∀ other ∈ s.tasks, other.Undisturbed lib call
  | .queries _, _ => True

variable {lib}

structure Task.Cleared (lib : Lib) (v : View) (task : Task) : Prop where
  rights : task.principal.holdsAll lib.globMatch task.operation.rights = true
  channels : ∀ name ∈ (task.operation.deletes lib).channels, ∀ d, v.channels[name]? = some d →
    task.principal.managesChannel lib d.2 = true
  hooks : ∀ name ∈ (task.operation.deletes lib).hooks, ∀ d, v.hooks[name]? = some d →
    task.principal.managesHook lib d.2 = true

def Task.Looked (lib : Lib) (v : View) (task : Task) (names : List String)
    (found : List GeofenceDef) : Prop :=
  ∃ pattern, task.operation = .write (.pdelchan pattern) ∧
    ∀ name, lib.globMatch pattern name = true → ∀ d, v.channels[name]? = some d →
      name ∈ names ∨ (∃ d' ∈ found, d'.collection = d.2.collection) ∨
        task.principal.managesChannel lib d.2 = true

def Task.Sound (lib : Lib) (v : View) (task : Task) : Prop :=
  match task.stage with
  | .arrived => True
  | .looking names found => task.Looked lib v names found
  | .cleared => task.Cleared lib v

/-! ### The check -/

variable {stage : Stage}

theorem clearedIf_eq_some {allowed : Bool} :
    clearedIf allowed = some stage ↔ allowed ∧ stage = .cleared := by
  cases allowed with
  | false => simp [clearedIf]
  | true => simp [clearedIf, eq_comm]

variable {v : View} {task : Task}

theorem Task.Cleared.of_rights
    (hrights : task.principal.holdsAll lib.globMatch task.operation.rights)
    (hdeletes : task.operation.deletes lib = {}) : task.Cleared lib v := by
  refine ⟨hrights, fun name hname => ?_, fun name hname => ?_⟩
  · rw [hdeletes] at hname
    exact absurd hname (Set.notMem_empty name)
  · rw [hdeletes] at hname
    exact absurd hname (Set.notMem_empty name)

variable {queriesAllowed : Bool}

theorem Task.sound_arrived
    (hhooks : ∀ pattern, task.operation = .write (.pdelhook pattern) → queriesAllowed = true)
    (h : task.operation.check lib task.principal v queriesAllowed = some stage) :
    { task with stage }.Sound lib v := by
  obtain ⟨principal, operation, _⟩ := task
  have hstatic : operation.deletes lib = {} →
      clearedIf (principal.holdsAll lib.globMatch operation.rights) = some stage →
      Task.Sound lib v { principal, operation, stage } := by
    intro hdeletes hcheck
    obtain ⟨hrights, rfl⟩ := clearedIf_eq_some.1 hcheck
    exact Task.Cleared.of_rights hrights hdeletes
  cases operation with
  | write request =>
    cases request with
    | delchan name =>
      obtain ⟨hall, rfl⟩ := clearedIf_eq_some.1 h
      refine ⟨rfl, fun other hother d hd => ?_, fun other hother => absurd hother id⟩
      cases hother
      rw [hd] at hall
      exact hall
    | pdelchan pattern =>
      change (if queriesAllowed then _ else none) = some stage at h
      split at h
      · cases h
        refine ⟨pattern, rfl, fun name hname d hd => .inl ?_⟩
        have hmem : name ∈ v.channels := Std.ExtTreeMap.mem_iff_isSome_getElem?.2 (by rw [hd]; rfl)
        exact mem_filter.2 ⟨Std.ExtTreeMap.mem_keys.2 hmem, hname⟩
      · cases h
    | delhook name =>
      obtain ⟨hall, rfl⟩ := clearedIf_eq_some.1 h
      refine ⟨rfl, fun other hother => absurd hother id, fun other hother d hd => ?_⟩
      cases hother
      rw [hd] at hall
      exact hall
    | pdelhook pattern =>
      obtain ⟨hall, rfl⟩ := clearedIf_eq_some.1 h
      rw [hhooks pattern rfl, if_pos rfl] at hall
      refine ⟨rfl, fun other hother => absurd hother id, fun other hother d hd => ?_⟩
      have hmem : (other, d) ∈ v.hooks.toList :=
        Std.ExtTreeMap.mem_toList_iff_getElem?_eq_some.2 hd
      exact all_eq_true.1 hall _ (mem_filter.2 ⟨hmem, hother⟩)
    | _ => exact hstatic rfl h
  | pdel collection pattern => exact hstatic rfl h
  | admin call =>
    obtain ⟨-, rfl⟩ := clearedIf_eq_some.1 h
    exact Task.Cleared.of_rights rfl rfl

variable {found : List GeofenceDef}

theorem Task.sound_looking {name : String} {names : List String}
    (h : task.Looked lib v (name :: names) found) :
    task.Looked lib v names (found ++ (v.channels[name]?.map Prod.snd).toList) := by
  obtain ⟨pattern, hoperation, hlooked⟩ := h
  refine ⟨pattern, hoperation, fun other hother d hd => ?_⟩
  rcases hlooked other hother d hd with hmem | ⟨d', hd', hsame⟩ | hmanages
  · rcases mem_cons.1 hmem with rfl | hrest
    · refine .inr (.inl ⟨d.2, ?_, rfl⟩)
      rw [hd]
      exact mem_append_right _ (mem_singleton.2 rfl)
    · exact .inl hrest
  · exact .inr (.inl ⟨d', mem_append_left _ hd', hsame⟩)
  · exact .inr (.inr hmanages)

theorem Task.sound_looked (h : task.Looked lib v [] found)
    (hall : found.all (task.principal.managesChannel lib)) : task.Cleared lib v := by
  obtain ⟨pattern, hoperation, hlooked⟩ := h
  have hdeletes : task.operation.deletes lib =
      { channels := {name | lib.globMatch pattern name = true} } := by
    rw [hoperation]
    rfl
  refine ⟨by rw [hoperation]; rfl, fun name hname d hd => ?_, fun name hname => ?_⟩
  · rw [hdeletes] at hname
    rcases hlooked name hname d hd with hmem | ⟨d', hd', hsame⟩ | hmanages
    · cases hmem
    · have hmanages := all_eq_true.1 hall d' hd'
      rwa [AuthPrincipal.managesChannel, hsame] at hmanages
    · exact hmanages
  · rw [hdeletes] at hname
    exact absurd hname (Set.notMem_empty name)

theorem Task.Sound.check (hsound : task.Sound lib v)
    (hhooks : ∀ pattern, task.operation = .write (.pdelhook pattern) → queriesAllowed = true)
    (h : task.check lib v queriesAllowed = some stage) : { task with stage }.Sound lib v := by
  rw [Task.check] at h
  unfold Task.Sound at hsound
  split at h
  · exact Task.sound_arrived hhooks h
  next name names found hstage =>
    rw [hstage] at hsound
    cases h
    exact Task.sound_looking hsound
  next found hstage =>
    rw [hstage] at hsound
    obtain ⟨hall, rfl⟩ := clearedIf_eq_some.1 h
    exact Task.sound_looked hsound hall
  next hstage =>
    rw [hstage] at hsound
    cases h
    exact ⟨hsound.rights, hsound.channels, hsound.hooks⟩

/-! ### Other requests in between -/

theorem Task.Sound.call {v v' : View} {task : Task} {call : Call} (hsound : task.Sound lib v)
    (hundisturbed : task.Undisturbed lib call) (hadds : View.Adds call.defines v v') :
    task.Sound lib v' := by
  unfold Task.Sound at hsound ⊢
  unfold Task.Undisturbed at hundisturbed
  cases hstage : task.stage with
  | arrived => exact True.intro
  | looking names found =>
    rw [hstage] at hsound hundisturbed
    obtain ⟨hchannels, -⟩ := hundisturbed rfl
    obtain ⟨pattern, hoperation, hlooked⟩ := hsound
    refine ⟨pattern, hoperation, fun name hname d hd => ?_⟩
    rcases hadds.channels name d hd with hold | hnew
    · exact hlooked name hname d hold
    · refine .inr (.inr (hchannels name d.2 hnew ?_))
      rw [hoperation]
      exact hname
  | cleared =>
    rw [hstage] at hsound hundisturbed
    obtain ⟨hchannels, hhooks⟩ := hundisturbed rfl
    refine ⟨hsound.rights, fun name hname d hd => ?_, fun name hname d hd => ?_⟩
    · rcases hadds.channels name d hd with hold | hnew
      · exact hsound.channels name hname d hold
      · exact hchannels name d.2 hnew hname
    · rcases hadds.hooks name d hd with hold | hnew
      · exact hsound.hooks name hname d hold
      · exact hhooks name d.2 hnew hname

def Server.Sound (lib : Lib) (s : Server) : Prop := ∀ task ∈ s.tasks, task.Sound lib s.db.view

theorem Server.Sound.step {event : Event} {s s' : Server} (h : s.Sound lib)
    (hguarded : Guarded lib event s) (hstep : Server.step lib event s = some s') :
    s'.Sound lib := by
  cases event with
  | arrive principal operation =>
    cases hstep
    intro task htask
    rcases mem_append.1 htask with hold | hnew
    · exact h task hold
    · cases mem_singleton.1 hnew
      exact True.intro
  | check i =>
    rw [Server.step] at hstep
    split at hstep
    · cases hstep
    next task htask =>
      have hsound := h task (mem_of_getElem? htask)
      split at hstep
      · cases hstep
        exact fun other hother => h other (mem_of_mem_eraseIdx hother)
      next stage hcheck =>
        cases hstep
        intro other hother
        rcases mem_or_eq_of_mem_set hother with hold | rfl
        · exact h other hold
        · exact hsound.check (hguarded task htask) hcheck
  | act ctx i =>
    rw [Server.step] at hstep
    split at hstep
    next principal operation htask =>
      cases hstep
      intro other hother
      have hmem := mem_of_mem_eraseIdx hother
      exact (h other hmem).call ((hguarded _ htask).2 other hmem)
        (s.db.call_adds lib ctx operation.call)
    · cases hstep
  | background ctx call =>
    cases hstep
    exact fun task htask => (h task htask).call (hguarded task htask) (s.db.call_adds lib ctx call)
  | queries allowed =>
    cases hstep
    exact h

/-! ### What a cleared request changes -/

section Rights

variable {principal : AuthPrincipal} {v v' : View}

theorem holds_of_mem {rights : List (AuthAction × String)} {action : AuthAction} {c : String}
    (h : principal.holdsAll lib.globMatch rights) (hmem : (action, c) ∈ rights) :
    principal.allows lib.globMatch action c = true :=
  all_eq_true.1 h _ hmem

theorem objectRight_of_scope {request : Request}
    (hrights : principal.holdsAll lib.globMatch (requiredRights request))
    (howns : (Operation.write request).Owns lib principal v) {c : String}
    (hc : c ∈ (request.scope lib v).collections) (hexists : v.collections.contains c) :
    ∃ action ∈ objectRight request, principal.allows lib.globMatch action c = true := by
  cases request with
  | set req | del _ _ | fset _ _ _ _ | expire _ _ _ | persist _ _ | jset _ _ _ _ _ | jdel _ _ _
  | dropCollection _ =>
    cases hc
    exact ⟨_, rfl, holds_of_mem hrights mem_cons_self⟩
  | rename _ newName =>
    rcases hc with rfl | rfl
    · exact ⟨_, rfl, holds_of_mem hrights mem_cons_self⟩
    · exact ⟨_, rfl, howns hexists⟩
  | renamenx _ newName =>
    change c ∈ (if v.collections.contains newName then _ else _) at hc
    split at hc
    · exact absurd hc (Set.notMem_empty c)
    next hnew =>
      rcases hc with rfl | rfl
      · exact ⟨_, rfl, holds_of_mem hrights mem_cons_self⟩
      · exact absurd hexists hnew
  | _ => exact absurd hc (Set.notMem_empty c)

end Rights

theorem Task.Cleared.respects {db : Db} (h : task.Cleared lib db.view)
    (howns : task.operation.Owns lib task.principal db.view) (ctx : Ctx) :
    Respects lib task.principal task.operation db.view
      (db.call lib ctx task.operation.call).2.view := by
  obtain ⟨principal, operation, stage⟩ := task
  obtain ⟨hrights, hchannels, hhooks⟩ := h
  cases operation with
  | write request =>
    have hframed := db.perform_framed lib ctx request
    refine ⟨fun c id o ho hchanged => ?_, fun name d hd hchanged => ?_, fun name d hd hchanged => ?_⟩
    · have hc : c ∈ (request.scope lib db.view).collections := by
        by_contra hout
        exact hchanged ((hframed.objects c hout id).trans ho)
      exact objectRight_of_scope hrights howns hc (View.contains_of_get ho)
    · have hname : name ∈ (request.scope lib db.view).channels := by
        by_contra hout
        exact hchanged ((hframed.channels name hout).trans hd)
      cases request with
      | setchan _ _ =>
        cases hname
        exact howns d hd
      | delchan _ | pdelchan _ => exact hchannels name hname d hd
      | _ => exact absurd hname (Set.notMem_empty name)
    · have hname : name ∈ (request.scope lib db.view).hooks := by
        by_contra hout
        exact hchanged ((hframed.hooks name hout).trans hd)
      cases request with
      | sethook _ _ _ =>
        cases hname
        exact howns d hd
      | delhook _ | pdelhook _ => exact hhooks name hname d hd
      | _ => exact absurd hname (Set.notMem_empty name)
  | pdel collection pattern =>
    have hframed := db.pdel_framed lib ctx collection pattern
    refine ⟨fun c id o ho hchanged => ?_, fun name d hd hchanged => ?_, fun name d hd hchanged => ?_⟩
    · have hc : c = collection := by
        by_contra hout
        exact hchanged ((hframed.objects c hout id).trans ho)
      subst hc
      exact ⟨_, rfl, holds_of_mem hrights mem_cons_self⟩
    · exact absurd ((hframed.channels name (Set.notMem_empty name)).trans hd) hchanged
    · exact absurd ((hframed.hooks name (Set.notMem_empty name)).trans hd) hchanged
  | admin call => exact absurd howns id

/-- In every run in which nothing slips past a check, a request that the handlers let through
respects the rights of its principal. -/
theorem Server.acts_within_rights {db : Db} {events : List Event}
    {s : Server} (hmeet : StepsMeet (Server.step lib) (Guarded lib) events { db, queriesAllowed })
    (hrun : runSteps (Server.step lib) events { db, queriesAllowed } = some s) {ctx : Ctx} {i : Nat}
    {task : Task} {s' : Server} (htask : s.tasks[i]? = some task)
    (hprincipal : task.principal.admin = false) (hguarded : Guarded lib (.act ctx i) s)
    (hstep : Server.step lib (.act ctx i) s = some s') :
    Respects lib task.principal task.operation s.db.view s'.db.view := by
  have hsound : s.Sound lib := runSteps_invariant
    (fun _ _ _ h hcond hstep => Server.Sound.step h hcond hstep)
    (fun _ h => absurd h not_mem_nil) hmeet hrun
  rw [Server.step, htask] at hstep
  obtain ⟨principal, operation, stage⟩ := task
  cases stage with
  | cleared =>
    cases hstep
    have hcleared := hsound _ (mem_of_getElem? htask)
    exact Task.Cleared.respects hcleared ((hguarded _ htask).1 hprincipal) ctx
  | arrived => cases hstep
  | looking names found => cases hstep

section Gate

open Sample

def gateOn (collection : String) : GeofenceDef where
  collection
  query := .within (.hash "gate") {}
  detect := []
  commands := []

def keeperOf (collection : String) (actions : List AuthAction) : AuthPrincipal where
  admin := false
  permissions := [{ patterns := [collection], actions }]

def gatedDb (collection : String) : Db :=
  { (fleetAndYard.perform blankLib sampleCtx (setIdle "fleet" "truck")).2 with
    geofences := ({} : Registry).setChannel "gate" (gateOn collection) }

/-- The keeper of the yard deletes its channel. -/
theorem keeper_deletes_own_gate :
    let keeper := keeperOf "yard" [.channelsManage]
    let operation := Operation.write (.delchan "gate")
    ∃ s s', runSteps (Server.step blankLib) [.arrive keeper operation, .check 0]
        { db := gatedDb "yard" } = some s ∧
      Server.step blankLib (.act sampleCtx 0) s = some s' ∧
      (s.db.view.channels["gate"]?).isSome = true ∧
      s'.db.view.channels["gate"]?.isSome = false ∧
      Respects blankLib keeper operation s.db.view s'.db.view := by
  intro keeper operation
  have hmeet : StepsMeet (Server.step blankLib) (Guarded blankLib)
      [.arrive keeper operation, .check 0] { db := gatedDb "yard" } := by
    refine StepsMeet.cons True.intro rfl (StepsMeet.cons ?_ rfl True.intro)
    intro task htask pattern hpattern
    cases htask
    cases hpattern
  refine ⟨_, _, rfl, rfl, rfl, rfl, ?_⟩
  refine @Server.acts_within_rights blankLib _ _ _ _ hmeet rfl sampleCtx 0 _ _ rfl rfl ?_ rfl
  intro task htask
  cases htask
  refine ⟨fun _ => True.intro, fun other hother _ => ⟨fun name d hnew => ?_, fun name d hnew => ?_⟩⟩
  · exact absurd hnew (Set.notMem_empty _)
  · exact absurd hnew (Set.notMem_empty _)

def Oversteps (lib : Lib) (db : Db) (events : List Event) (ctx : Ctx) : Prop :=
  ∃ s task s', runSteps (Server.step lib) events { db } = some s ∧ s.tasks[0]? = some task ∧
    task.principal.admin = false ∧ Server.step lib (.act ctx 0) s = some s' ∧
    ¬ Respects lib task.principal task.operation s.db.view s'.db.view

/-- The keeper of the yard replaces a channel of the fleet by one of the same name; deletes it
after its own channel was replaced behind the check; and, as it may create the fleet, renames the
yard over it. -/
theorem keeper_oversteps :
    let keeper := keeperOf "yard" [.channelsManage, .collectionsDelete]
    Oversteps blankLib (gatedDb "fleet")
      [.arrive keeper (.write (.setchan "gate" (gateOn "yard"))), .check 0] sampleCtx ∧
    Oversteps blankLib (gatedDb "yard")
      [.arrive keeper (.write (.delchan "gate")), .check 0,
        .arrive { admin := true, permissions := [] } (.write (.setchan "gate" (gateOn "fleet"))),
        .check 1, .act sampleCtx 1] sampleCtx ∧
    Oversteps blankLib (gatedDb "fleet")
      [.arrive { keeper with permissions := keeper.permissions ++
          [{ patterns := ["fleet"], actions := [.collectionsCreate] }] }
        (.write (.rename "yard" "fleet")), .check 0] sampleCtx := by
  intro keeper
  refine ⟨⟨_, _, _, rfl, rfl, rfl, rfl, fun h => ?_⟩, ⟨_, _, _, rfl, rfl, rfl, rfl, fun h => ?_⟩,
    ⟨_, _, _, rfl, rfl, rfl, rfl, fun h => ?_⟩⟩
  · have hreplaced := h.channels "gate" ((), gateOn "fleet") rfl
    have hmanages := hreplaced fun hsame => by
      have hcollection := congrArg (Option.map fun d => d.2.collection) hsame
      exact absurd (Option.some.inj hcollection) (by decide)
    cases hmanages
  · have hmanages := h.channels "gate" ((), gateOn "fleet") rfl nofun
    cases hmanages
  · obtain ⟨action, haction, hallows⟩ := h.objects "fleet" "truck" _ rfl nofun
    cases haction
    cases hallows

end Gate

end LatLng.Auth
