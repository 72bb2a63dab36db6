import LatLng.Core.Meaning

/-! Which SET, FSET, DEL and EXPIRE calls succeed when the backend works: what they need is
in their own collection, whatever the rest of the database holds. -/

namespace LatLng.Core

open Geo Geofence Storage List

variable {lib : Lib}

theorem Db.mapM_enqueue {db : Db} {ctx : Ctx} {events : List GeofenceEvent}
    (h : ∀ e ∈ events, ∃ stored, db.geofences.hooks.fences[e.hook.getD ""]? = some stored) :
    ∃ webhooks, (events.mapM fun event =>
      let hookName := event.hook.getD ""
      match db.geofences.hooks.fences[hookName]? with
      | none => .error (.message s!"hook missing during enqueue: {hookName}")
      | some hook => .ok
        ({ jobId := "", event, endpoint := hook.endpoint, attemptsUsed := 0
           maxAttempts := min (db.config.webhookRetryCount + 1) (2 ^ 32 - 1)
           nextAttemptAtMs := ctx.nowMs } : WebhookEnqueueRecord)) =
        (.ok webhooks : Except CoreError (List WebhookEnqueueRecord)) := by
  induction events with
  | nil => exact ⟨[], rfl⟩
  | cons event events ih =>
    obtain ⟨stored, hstored⟩ := h event mem_cons_self
    obtain ⟨rest, hrest⟩ := ih fun e he => h e (mem_cons_of_mem _ he)
    rw [mapM_cons, hrest]
    simp only [hstored]
    exact ⟨_, rfl⟩

variable (lib) in
theorem Db.webhookRecords_planMutation (db : Db) (ctx : Ctx) (event : MutationEvent) :
    ∃ webhooks, db.webhookRecordsForPrepared ctx (db.planMutation lib ctx event) = .ok webhooks := by
  refine mapM_enqueue fun e he => ?_
  obtain ⟨hmem, hsome⟩ := mem_filter.1 he
  obtain ⟨name, hname⟩ := Option.isSome_iff_exists.1 hsome
  rw [hname]
  exact Registry.prepareMutation_hook hmem hname

variable (lib) in
def Request.Admissible (v : View) : Request → Prop
  | .set req => req.object.validate lib.toGeoLib = .ok () ∧
    (req.stops v = true ∨ req.object.indexable lib.toGeoLib = true)
  | .del _ _ => True
  | .fset c id _ xx => (v.get c id).isSome = true ∨ xx = true
  | .expire c id _ => (v.get c id).isSome = true
  | _ => False

variable {v : View} {request : Request} {c : String}

theorem Request.Admissible.congr {v' : View} (hc : request.collection? = some c)
    (hv : v.collections[c]? = v'.collections[c]?)
    (h : request.Admissible lib v) : request.Admissible lib v' := by
  have hget := View.get_congr hv
  cases request with
  | set req =>
    cases hc
    refine ⟨h.1, ?_⟩
    rw [SetRequest.stops, ← hget]
    exact h.2
  | del c id => trivial
  | fset c id fields xx | expire c id seconds =>
    cases hc
    rw [Admissible, ← hget]
    exact h
  | _ => cases h

variable (lib) in
def Plan.Passes : Plan → Prop
  | .done result => result.isOk = true
  | .write w => w.effect.indexable lib = true

namespace Db

variable (db : Db) (ctx : Ctx)

theorem planEvent_passes_iff {event : MutationEvent} {command : Command} {effect : Effect}
    {version : Option Nat} {reply : Answer → Except CoreError Answer} :
    (db.planEvent lib ctx event command effect version reply).Passes lib ↔
      effect.indexable lib = true := by
  obtain ⟨webhooks, hwebhooks⟩ := db.webhookRecords_planMutation lib ctx event
  rw [planEvent, hwebhooks]
  exact Iff.rfl

theorem planSet_passes_iff (req : SetRequest) (version : Option Nat) :
    (db.planSet lib ctx req version).Passes lib ↔
      req.stops db.view ∨ req.object.indexable lib.toGeoLib = true := by
  rw [planSet, SetRequest.stops, db.view_get]
  -- the condition stops the call, or an upsert of the given geometry is planned
  cases req.condition <;> cases db.getObject req.collection req.id <;>
    first
    | exact iff_of_true rfl (.inl rfl)
    | exact (db.planEvent_passes_iff ctx).trans
        (by simp [Effect.indexable, Mutation.indexable, setObject])

theorem planFset_passes_iff {id : String} {fields : List FieldEntry} {xx : Bool}
    {cell : VersionedCollection} {version : Option Nat} (hc : db.collections[c]? = some cell) :
    (db.planFset lib ctx c id fields xx cell version).Passes lib ↔
      (db.view.get c id).isSome ∨ xx = true := by
  rw [planFset, db.view_get, getObject, hc, Option.bind_some]
  cases cell.objects[id]? with
  | none => cases xx <;> simp [Plan.Passes, fsetMissing, Except.isOk, Except.toBool]
  | some before =>
    rw [planEvent_passes_iff]
    simp [Effect.indexable, Mutation.indexable]

theorem ensureWritable_ok_iff : db.ensureWritable = .ok () ↔ db.config.readOnly = false := by
  rw [ensureWritable]
  cases db.config.readOnly <;> simp

theorem planExpiry_passes_iff {id : String} {expiresAt : Option Nat} {command : Command} :
    (db.planExpiry c id expiresAt command).Passes lib ↔
      db.config.readOnly = false ∧ (db.view.get c id).isSome = true := by
  rw [planExpiry, ← db.ensureWritable_ok_iff, existingCollectionHandle, db.view_get, getObject]
  cases db.ensureWritable with
  | error e => simp [Plan.Passes, Except.isOk, Except.toBool]
  | ok u =>
    cases db.collections[c]? with
    | none => simp [Plan.Passes, Except.isOk, Except.toBool]
    | some cell =>
      dsimp only
      rw [Option.bind_some]
      cases cell.objects[id]? <;> simp [Plan.Passes, Except.isOk, Except.toBool, planRecord,
        Effect.indexable, Mutation.indexable]

end Db

variable {db : Db} {cell : VersionedCollection}

theorem Request.exclusivePlan_passes (ctx : Ctx) (hc : request.collection? = some c)
    (hcell : db.collections[c]? = some cell) (hwritable : db.config.readOnly = false)
    (h : request.Admissible lib db.view) : (request.exclusivePlan lib db ctx).Passes lib := by
  have hok := db.ensureWritable_ok_iff.2 hwritable
  cases request with
  | set req =>
    rw [exclusivePlan, Db.setExclusive, hok]
    exact (db.planSet_passes_iff ctx req none).2 h.2
  | del c' id =>
    rw [exclusivePlan, Db.delExclusive, hok]
    dsimp only
    split
    · rfl
    · exact (db.planEvent_passes_iff ctx).2 rfl
  | fset c' id fields xx =>
    cases hc
    rw [exclusivePlan, Db.fsetExclusive, hok, Db.existingCollectionHandle, hcell]
    exact (db.planFset_passes_iff ctx hcell).2 h
  | expire c' id seconds => exact db.planExpiry_passes_iff.2 ⟨hwritable, h⟩
  | _ => cases h

variable {ctx : Ctx}

theorem Request.localPlan_passes {plan : Plan} (hc : request.collection? = some c)
    (hcell : db.collections[c]? = some cell) (hwritable : db.config.readOnly = false)
    (hstores : db.storage.storesCommandLog) (h : request.Admissible lib db.view)
    (hplan : request.localPlan lib db ctx = some plan) : plan.Passes lib := by
  have hok := db.ensureWritable_ok_iff.2 hwritable
  cases request with
  | set req =>
    cases hc
    rw [localPlan, h.1] at hplan
    rw [Db.trySetLocal, hok] at hplan
    dsimp only at hplan
    split at hplan
    · cases hplan
    · rw [hcell] at hplan
      dsimp only at hplan
      rw [if_neg (by simp [hstores])] at hplan
      cases hplan
      exact (db.planSet_passes_iff ctx req _).2 h.2
  | del c' id =>
    cases hc
    rw [localPlan, Db.tryDelLocal, hok] at hplan
    dsimp only at hplan
    split at hplan
    · cases hplan
    · rw [hcell] at hplan
      dsimp only at hplan
      split at hplan <;> cases hplan
      · rfl
      · exact (db.planEvent_passes_iff ctx).2 rfl
  | fset c' id fields xx =>
    cases hc
    rw [localPlan, Db.tryFsetLocal, hok] at hplan
    dsimp only at hplan
    split at hplan
    · cases hplan
    · rw [Db.existingCollectionHandle, hcell] at hplan
      cases hplan
      exact (db.planFset_passes_iff ctx hcell).2 h
  | expire c' id seconds =>
    cases hplan
    exact db.planExpiry_passes_iff.2 ⟨hwritable, h⟩
  | _ => cases h

/-! ### Calls that succeed when they are made alone -/

variable {aim : Aim}

theorem Plan.passes_of_finish {plan : Plan} (hplan : plan.Intended lib db.view aim)
    (hok : (db.finish lib ctx plan).1.isOk) : plan.Passes lib := by
  cases plan with
  | done result => exact hok
  | write w =>
    rw [Db.finish] at hok
    rcases db.commit_cases lib ctx w with ⟨e, he, -⟩ | ⟨db', -, hcommit⟩
    · rw [he] at hok
      cases hok
    · cases hidx : w.effect.indexable lib with
      | true => exact hidx
      | false =>
        obtain ⟨e, he⟩ := hplan.error hidx
        rw [hcommit, he] at hok
        cases hok

def Request.isBasic : Request → Bool
  | .set _ => true
  | .fset _ _ _ _ => true
  | .del _ _ => true
  | .expire _ _ _ => true
  | _ => false

theorem Request.admissible_of_perform (hbasic : request.isBasic)
    (hc : request.collection? = some c) (hcell : db.collections[c]? = some cell)
    (hstores : db.storage.storesCommandLog) (hok : (db.perform lib ctx request).1.isOk) :
    db.config.readOnly = false ∧ request.Admissible lib db.view := by
  have hpasses := Plan.passes_of_finish (request.plan_intended lib db ctx) hok
  rw [plan] at hpasses
  rw [← db.ensureWritable_ok_iff]
  cases request with
  | set req =>
    cases hc
    rw [localPlan] at hpasses
    cases hvalid : req.object.validate lib.toGeoLib with
    | error e =>
      rw [hvalid] at hpasses
      cases hpasses
    | ok u =>
      rw [hvalid] at hpasses
      rw [Db.trySetLocal, exclusivePlan, Db.setExclusive] at hpasses
      cases hwritable : db.ensureWritable with
      | error e =>
        rw [hwritable] at hpasses
        cases hpasses
      | ok u =>
        rw [hwritable, hcell] at hpasses
        refine ⟨rfl, hvalid, ?_⟩
        dsimp only at hpasses
        split at hpasses
        · exact (db.planSet_passes_iff ctx req _).1 hpasses
        · rw [if_neg (by simp [hstores])] at hpasses
          exact (db.planSet_passes_iff ctx req _).1 hpasses
  | del c' id =>
    refine ⟨?_, trivial⟩
    rw [localPlan, Db.tryDelLocal] at hpasses
    cases hwritable : db.ensureWritable with
    | error e =>
      rw [hwritable] at hpasses
      cases hpasses
    | ok u => rfl
  | fset c' id fields xx =>
    cases hc
    rw [localPlan, Db.tryFsetLocal, exclusivePlan, Db.fsetExclusive, Db.existingCollectionHandle,
      hcell] at hpasses
    cases hwritable : db.ensureWritable with
    | error e =>
      rw [hwritable] at hpasses
      cases hpasses
    | ok u =>
      rw [hwritable] at hpasses
      refine ⟨rfl, ?_⟩
      dsimp only at hpasses
      split at hpasses <;> exact (db.planFset_passes_iff ctx hcell).1 hpasses
  | expire c' id seconds =>
    obtain ⟨hwritable, hsome⟩ := db.planExpiry_passes_iff.1 hpasses
    exact ⟨db.ensureWritable_ok_iff.2 hwritable, hsome⟩
  | _ => cases hbasic

theorem Request.commands_eq_nil_iff (request : Request) (hbasic : request.isBasic)
    (v : View) (ctx ctx' : Ctx) : request.commands ctx v = [] ↔ request.commands ctx' v = [] := by
  cases request with
  | set req =>
    rw [commands, commands]
    cases req.condition <;> cases v.get req.collection req.id <;> simp
  | del c id => exact Iff.rfl
  | fset c id fields xx => exact Iff.rfl
  | expire c id seconds =>
    rw [commands, commands]
    split <;> simp
  | _ => cases hbasic

variable {commands : List Command}

theorem Intends.commands_ne_nil {effect : Effect}
    (h : Intends lib v aim commands effect) : commands ≠ [] := by
  cases h <;> exact cons_ne_nil _ _

theorem Intends.mutates {v' : View} {effect : Effect}
    (h : Intends lib v aim commands effect) (hcommands : commands = request.commands ctx v')
    (hbasic : request.isBasic) (hc : request.collection? = some c) :
    ∃ m, effect = .mutate c m := by
  have hne := h.commands_ne_nil
  cases request with
  | set req =>
    cases hc
    rw [Request.commands] at hcommands
    split at hcommands
    · exact absurd hcommands hne
    · exact absurd hcommands hne
    · subst hcommands
      cases h
      exact ⟨_, rfl⟩
  | del c id | fset c id fields xx | expire c id seconds =>
    cases hc
    rw [Request.commands] at hcommands
    split at hcommands
    · subst hcommands
      cases h
      exact ⟨_, rfl⟩
    · exact absurd hcommands hne
  | _ => cases hbasic

theorem Batch.count_pos {batch : Batch} (h : batch.commands ≠ []) : 0 < batch.count := by
  cases batch with
  | command c webhooks => exact Nat.add_pos_left Nat.one_pos _
  | records rs =>
    refine length_pos_iff.2 fun hnil => h ?_
    rw [commands, hnil]
    rfl

theorem Db.counted_of_perform {w : Write}
    (hstores : db.storage.storesCommandLog) (hplan : request.plan lib db ctx = .write w)
    (hok : (db.perform lib ctx request).1.isOk) :
    ∀ last ∈ db.storage.entries.getLast?, last.sequence ≤ db.nextSequence := by
  have hw := request.plan_intended lib db ctx
  rw [perform, hplan, finish] at hok
  rw [hplan] at hw
  rcases db.commit_cases lib ctx w with ⟨e, he, -⟩ | ⟨db', hp, -⟩
  · rw [he] at hok
    cases hok
  have hne := hp.log_ne hstores hw.intends.commands_ne_nil
  rcases hp with ⟨hno, -⟩ | ⟨-, entries, hlogged, -⟩
  · rw [hstores] at hno
    cases hno
  intro last hlast
  cases entries with
  | nil => exact absurd (hlogged.log.trans (append_nil _)) hne
  | cons entry entries =>
    have hlt := hlogged.after last hlast entry mem_cons_self
    have hfirst := (cons.inj hlogged.numbered).1
    omega

end LatLng.Core
