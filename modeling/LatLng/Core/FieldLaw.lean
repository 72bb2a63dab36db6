import LatLng.Core.Edits
import LatLng.Core.Restart
import LatLng.Core.RoundTrip
import LatLng.Lib.Schedule

/-! The fields of an object over a run of SET, FSET, DEL and restarts: a field has the value that
was assigned to it last since the object was created. -/

namespace LatLng.Core

open Geo Geofence LatLng.Lib Storage List Option Request

/-! ### Assignments -/

def lastAssigned (assigned : List FieldEntry) (name : String) : Option FieldValue :=
  match assigned.reverse.find? fun entry => entry.name == name with
  | none => none
  | some entry => if isZeroFieldValue entry.value then none else some entry.value

theorem applyFieldUpdates_append (fields : FieldMap) (first second : List FieldEntry) :
    applyFieldUpdates fields (first ++ second) =
      applyFieldUpdates (applyFieldUpdates fields first) second :=
  foldl_append

theorem getElem?_applyFieldUpdates (fields : FieldMap) (updates : List FieldEntry)
    (name : String) : (applyFieldUpdates fields updates)[name]? =
      match updates.reverse.find? fun entry => entry.name == name with
      | none => fields[name]?
      | some entry => if isZeroFieldValue entry.value then none else some entry.value := by
  -- the last update comes first in the reversed list
  induction updates using reverseRecOn with
  | nil => rfl
  | append_singleton updates entry ih =>
    have hlast : applyFieldUpdates fields (updates ++ [entry]) =
        if isZeroFieldValue entry.value then (applyFieldUpdates fields updates).erase entry.name
        else (applyFieldUpdates fields updates).insert entry.name entry.value :=
      applyFieldUpdates_append fields updates [entry]
    rw [hlast, reverse_append, reverse_singleton, singleton_append,
      find?_cons]
    by_cases hname : entry.name = name
    · subst hname
      by_cases hzero : isZeroFieldValue entry.value = true <;> simp [hzero]
    · have hother : (entry.name == name) = false := beq_eq_false_iff_ne.2 hname
      rw [hother]
      rw [← ih]
      split
      · simp [Std.ExtTreeMap.getElem?_erase, hname]
      · simp [Std.ExtTreeMap.getElem?_insert, hname]

theorem getElem?_assigned (assigned : List FieldEntry) (name : String) :
    (applyFieldUpdates ∅ assigned)[name]? = lastAssigned assigned name := by
  rw [getElem?_applyFieldUpdates, lastAssigned, Std.ExtTreeMap.getElem?_empty]

variable {name : String}

theorem getElem?_applyFieldUpdates_of_ne {fields : FieldMap} {updates : List FieldEntry}
    (h : ∀ entry ∈ updates, entry.name ≠ name) :
    (applyFieldUpdates fields updates)[name]? = fields[name]? := by
  have hnone : (updates.reverse.find? fun entry => entry.name == name) = none := by
    rw [find?_eq_none]
    intro entry hentry hname
    exact h entry (mem_reverse.1 hentry) (eq_of_beq hname)
  rw [getElem?_applyFieldUpdates, hnone]

variable {assigned : List FieldEntry}

theorem lastAssigned_ne_zero {value : FieldValue}
    (h : lastAssigned assigned name = some value) : isZeroFieldValue value = false := by
  unfold lastAssigned at h
  split at h
  · cases h
  · split at h
    · cases h
    next hzero =>
      cases h
      exact Bool.eq_false_iff.2 hzero

theorem mem_of_lastAssigned {value : FieldValue}
    (h : lastAssigned assigned name = some value) : ⟨name, value⟩ ∈ assigned := by
  unfold lastAssigned at h
  split at h
  · cases h
  next entry hfind =>
    split at h
    · cases h
    · cases h
      have hname : entry.name = name := eq_of_beq (find?_some hfind :)
      subst hname
      exact mem_reverse.1 (mem_of_find?_eq_some hfind)

def AllFinite (assigned : List FieldEntry) : Prop :=
  ∀ x ∈ assigned.flatMap FieldEntry.numbers, x.Finite

theorem AllFinite.entries (h : AllFinite assigned) :
    AllFinite (fieldMapToEntries (applyFieldUpdates ∅ assigned)) := by
  intro x hx
  obtain ⟨entry, hentry, hx⟩ := mem_flatMap.1 hx
  refine h x (mem_flatMap.2 ⟨entry, ?_, hx⟩)
  obtain ⟨⟨name, value⟩, hfield, rfl⟩ := mem_map.1 hentry
  rw [Std.ExtTreeMap.mem_toList_iff_getElem?_eq_some, getElem?_assigned] at hfield
  exact mem_of_lastAssigned hfield

theorem AllFinite.append {first second : List FieldEntry} (h : AllFinite first) (h' : AllFinite second) :
    AllFinite (first ++ second) := by
  unfold AllFinite
  rw [flatMap_append, forall_mem_append]
  exact ⟨h, h'⟩

/-! ### What comes back from the log -/

def GeoType.readBack : GeoType → GeoType
  | .point lat lon z => .point lat lon (z.filter F64.isFinite)
  | geo => geo

def Command.readBack : Command → Command
  | .setPersisted record => .setPersisted { record with object := GeoType.readBack record.object }
  | command => command

variable {lib : Lib} {parse : List UInt8 → Option Json}

theorem GeoType.encode_readBack (lib : GeoLib) (geo : GeoType) :
    (geoTypeFormat lib).encode geo = (geoTypeFormat lib).encode (readBack geo) := by
  cases geo with
  | point lat lon z =>
    cases z with
    | none => rfl
    | some z =>
      have hz : (JsonFormat.optionalF64 lib).encode (some z) =
          (JsonFormat.optionalF64 lib).encode ((some z).filter F64.isFinite) := by
        cases hfinite : z.isFinite with
        | false =>
          simp [JsonFormat.optionalF64, JsonFormat.f64, Format.option, Option.filter, hfinite]
          rfl
        | true => simp [Option.filter, hfinite]
      exact congrArg (fun d => Json.obj [("Point", Json.obj [("lat", (JsonFormat.f64 lib).encode lat),
        ("lon", (JsonFormat.f64 lib).encode lon), ("z", d)])]) hz
  | _ => rfl

theorem Command.encode_readBack (lib : GeoLib) (command : Command) :
    (logRecordFormat lib).encode (.command command) =
      (logRecordFormat lib).encode (.command command.readBack) := by
  cases command with
  | setPersisted record =>
    have hgeo := GeoType.encode_readBack lib record.object
    exact congrArg (fun d => Json.obj [("Command", Json.obj [("SetPersisted", Json.obj
      [("collection", .str record.collection), ("id", .str record.id), ("object", d),
        ("fields", (fieldEntryFormat lib).list.encode record.fields),
        ("expires_at_ms", JsonFormat.optionalNat.encode record.expiresAtMs)])])]) hgeo
  | _ => rfl

theorem Codec.Derived.decode_readBack (h : lib.codec.Derived lib.toGeoLib parse)
    {command : Command} (hchecked : command.Checked lib)
    (hfinite : ∀ x ∈ command.readBack.unchecked, x.Finite) {payload : List UInt8}
    (hjson : lib.codec.toJson (.command command) = .ok payload) :
    decodeLogRecord lib payload = .ok (.command command.readBack) := by
  have hsame := Command.encode_readBack lib.toGeoLib command
  have hchecked' : command.readBack.Checked lib := by
    cases command with
    | setPersisted record =>
      obtain ⟨collection, id, object, fields, expiresAtMs⟩ := record
      cases object <;> exact hchecked
    | _ => exact hchecked
  exact (h.decode_eq_iff hjson hsame).2 (hchecked'.atoms_iff.2 hfinite)

theorem GeoType.indexable_readBack (lib : GeoLib) (geo : GeoType) :
    (readBack geo).indexable lib = geo.indexable lib := by
  cases geo <;> rfl

theorem Command.Replayable.readBack {command : Command} (h : command.Replayable lib) :
    command.readBack.Replayable lib := by
  cases command with
  | setPersisted record =>
    intro geo hgeo
    cases hgeo
    rw [GeoType.indexable_readBack]
    exact h record.object rfl
  | _ => exact h

/-! ### Calls without hooks -/

def Plan.Quiet (lib : Lib) : Plan → Prop
  | .done _ => True
  | .write w => ∀ sequences, w.batch.numbered lib sequences = w.batch.commands.map .command

namespace Db

variable {db : Db} {ctx : Ctx}

theorem webhookRecords_of_no_hooks (hhooks : db.view.hooks = ∅) {prepared : PreparedMutation}
    {webhooks : List WebhookEnqueueRecord}
    (h : db.webhookRecordsForPrepared ctx prepared = .ok webhooks) : webhooks = [] := by
  have hnone : ∀ name : String, db.geofences.hooks.fences[name]? = none := by
    intro name
    have hdefs : db.geofences.hooks.defs[name]? = none := by
      rw [show db.geofences.hooks.defs = ∅ from hhooks]
      rfl
    rwa [FenceTable.getElem?_defs, map_eq_none_iff] at hdefs
  have hall : ∀ r ∈ webhooks, False := by
    refine forall_of_mapM (fun event r hr => ?_) h
    dsimp only at hr
    rw [hnone] at hr
    cases hr
  exact eq_nil_iff_forall_not_mem.2 hall

end Db

theorem Request.plan_quiet {db : Db} {ctx : Ctx} (hhooks : db.view.hooks = ∅) {request : Request}
    (h : request.edits) : (request.plan lib db ctx).Quiet lib := by
  obtain ⟨shared, hplanned⟩ := request.plan_planned lib db ctx
  generalize request.plan lib db ctx = plan at hplanned ⊢
  cases hplanned with
  | refused e => trivial
  | idle hidle => trivial
  | edit hedit hread hwebhooks =>
    cases Db.webhookRecords_of_no_hooks hhooks hwebhooks
    intro sequences
    simp [Batch.numbered, Batch.commands, buildCommandBatchRecords]
  | record hrecord => exact fun sequences => rfl
  | json hjson hc ho hgeo hchange => cases hjson <;> cases h
  | drop hc hevents => cases h

theorem Intends.singleton {v : View} {aim : Aim} {commands : List Command} {effect : Effect}
    (h : Intends lib v aim commands effect) (haim : ∀ c id geo, aim ≠ .edit c id geo) :
    ∃ command, commands = [command] ∧
      (command.Replayable lib → effect.indexable lib = true) := by
  cases h with
  | set record _ => exact ⟨_, rfl, fun h => h record.object rfl⟩
  | jset _ _ _ hedit | jdel _ _ _ hedit => exact absurd hedit (haim _ _ _)
  | _ => exact ⟨_, rfl, fun _ => rfl⟩

variable (lib) in
structure Db.LogsOne (db : Db) (command : Command) (db' : Db) : Prop where
  stores : db'.storage.storesCommandLog = true
  checked : command.Checked lib
  replayable : command.Replayable lib
  entry : ∃ entry, db'.storage.entries = db.storage.entries ++ [entry] ∧ 0 < entry.sequence ∧
    lib.codec.toJson (.command command) = .ok entry.command

theorem Db.perform_logs {db : Db} {ctx : Ctx} {request : Request}
    (hstores : db.storage.storesCommandLog) (hhooks : db.view.hooks = ∅)
    (hedits : request.edits) (hkeeps : (Call.request request).KeepsRestorable lib db ctx) :
    (db.storage.SameLog (db.perform lib ctx request).2.storage ∧
      (db.perform lib ctx request).1 ≠ .ok (.bool true)) ∨
    ((db.perform lib ctx request).1 = .ok (.bool true) ∧
      ∃ command, request.commands ctx db.view = [command] ∧
        db.LogsOne lib command (db.perform lib ctx request).2) := by
  have hcarries := request.plan_carries lib db ctx hedits
  have hquiet := @plan_quiet lib db ctx hhooks request hedits
  have hintended := request.plan_intended lib db ctx
  have hfresh := request.plan_fresh lib db ctx
  have hmeans : (request.plan lib db ctx).Means (request.commands ctx db.view) := by
    rw [plan]
    cases hlocal : request.localPlan lib db ctx with
    | none => exact request.exclusivePlan_means lib db ctx
    | some plan => exact localPlan_means hlocal
  rw [Db.perform]
  cases hplan : request.plan lib db ctx with
  | done result =>
    rw [hplan] at hcarries
    exact .inl ⟨.refl _, hcarries⟩
  | write w =>
    rw [hplan] at hcarries hquiet hintended hfresh hmeans
    have hreplayable := plan_replayable hplan hkeeps
    have hintends := Write.Intended.intends hintended
    obtain ⟨command, hcommand, hindexable⟩ := hintends.singleton (by
      intro c id geo haim
      cases request <;> cases hedits <;> cases haim)
    rw [hcommand] at hreplayable
    have hone := hreplayable command mem_cons_self
    rw [Db.finish]
    rcases db.commit_cases lib ctx w with ⟨e, he, hun, -⟩ | ⟨db', hp, hcommit⟩
    · rw [he]
      exact .inl ⟨hun.log, error_ne_true e⟩
    · rw [hcommit]
      right
      have hanswer : (w.apply lib db.toStore).1 = .ok (.bool true) := by
        obtain ⟨event, -, hc⟩ := hcarries
        rcases hc.getObject with ⟨e, herr, -⟩ | ⟨hok, -⟩
        · obtain ⟨answer, hok, -⟩ := Write.Intended.ok hintended (hindexable hone) 0
          rw [Write.apply_of_error (congrArg Prod.fst herr)] at hok
          cases hok
        · rw [(Write.apply_of_true hok).1]
          exact hc.reply
      refine ⟨hanswer, command, hmeans.symm.trans hcommand, ?_⟩
      rcases hp with ⟨hno, -⟩ | ⟨-, entries, hlogged, hencode⟩
      · cases hno.symm.trans hstores
      · have hnumbered : ∀ sequences, w.batch.numbered lib sequences = [.command command] := by
          intro sequences
          rw [hquiet sequences, hcommand]
          rfl
        have hcount : w.batch.count = 1 := by
          rw [← w.batch.length_numbered lib (db.nextSequence + 1), hnumbered]
          rfl
        rw [hnumbered, hcount] at hencode
        obtain ⟨payload, rest, hr, hrest, rfl⟩ := encodeEntriesForSequences_cons hencode
        cases hrest
        have hchecked : command.Checked lib := by
          have hmem : LogRecord.command command ∈ w.batch.numbered lib [] := by
            rw [hnumbered]
            exact mem_cons_self
          rcases Batch.Fresh.mem_numbered hfresh hmem with ⟨c, hc, hchecked⟩ | ⟨r, hr⟩
          · cases hc
            exact hchecked
          · cases hr
        exact ⟨hlogged.stores.trans hstores, hchecked, hone, _, hlogged.log,
          Nat.succ_pos _, toJson_of_encode hr⟩

/-! ### The ledger -/

/-- A database with the assignments to the fields of each object since it was created, oldest
first, and the latest time at which the database was started again. -/
structure Ledger where
  db : Db
  assigned : String × String → Option (List FieldEntry) := fun _ => none
  clock : Nat := 0

inductive LedgerEvent where
  | edit (ctx : Ctx) (request : Request)
  | restart (ctx : Ctx) (config : Config)

namespace Ledger

/-- The object that a SET, FSET or DEL is about, and its assignments once the call has done what
it was asked to do. A SET that finds no object creates one. -/
def assigns (s : Ledger) : Request → Option ((String × String) × Option (List FieldEntry))
  | .set req =>
    let key := (req.collection, req.id)
    let before := match s.db.getObject req.collection req.id with
      | none => []
      | some _ => (s.assigned key).getD []
    some (key, some (before ++ req.fields))
  | .fset collection id fields _ =>
    some ((collection, id), (s.assigned (collection, id)).map (· ++ fields))
  | .del collection id => some ((collection, id), none)
  | _ => none

def note (s : Ledger) (key : String × String) (value : Option (List FieldEntry)) :
    Except CoreError Answer × Db → Ledger
  | (.ok (.bool true), db) => { s with db, assigned := Function.update s.assigned key value }
  | (_, db) => { s with db }

variable (lib : Lib)

def step (event : LedgerEvent) (s : Ledger) : Option Ledger :=
  match event with
  | .edit ctx request =>
    (s.assigns request).map fun (key, value) => s.note key value (s.db.perform lib ctx request)
  | .restart ctx config =>
    match (build lib ctx s.db.storage config).1 with
    | .error _ => none
    | .ok db => some { s with db, clock := max s.clock ctx.nowMs }

/-- What the fields of the stored objects are, and what replaying the log makes of them. -/
structure Merged (s : Ledger) : Prop where
  fields : ∀ c id object, s.db.getObject c id = some object →
    ∃ assigned, s.assigned (c, id) = some assigned ∧
      ∀ name, object.fields[name]? = lastAssigned assigned name
  nonzero : ∀ c id object (name : String) value, s.db.getObject c id = some object →
    object.fields[name]? = some value → isZeroFieldValue value = false
  /-- Exactly the objects with assignments come back, with the same fields. One that is not
  stored now was past its deadline when the database was started. -/
  replays : ∀ now, ∃ replayed, replayLog lib now s.db.storage.entries = .ok replayed ∧
    ∀ c id,
      match s.assigned (c, id) with
      | none => s.db.getObject c id = none ∧ replayed.view.get c id = none
      | some assigned => ∃ object, replayed.view.get c id = some object ∧
        (∀ name, object.fields[name]? = lastAssigned assigned name) ∧
        match s.db.getObject c id with
        | none => isExpired s.clock object = true
        | some stored => object.fields = stored.fields

/-- The record of the call can be read and applied again: the geometry can be indexed if SET
accepts it, and the values assigned to fields are finite numbers or no numbers. -/
def Recordable (event : LedgerEvent) (_ : Ledger) : Prop :=
  match event with
  | .edit _ (.set req) =>
    (req.object.validate lib.toGeoLib = .ok () → req.object.indexable lib.toGeoLib = true) ∧
      AllFinite req.fields
  | .edit _ (.fset _ _ fields _) => AllFinite fields
  | _ => True

end Ledger

/-! ### The log against the assignments -/

section Commands

variable {ctx : Ctx} {v : View} {command : Command}

theorem command_of_set {req : SetRequest} (h : (set req).commands ctx v = [command]) :
    command = Db.setRecord req (Db.setObject ctx req (v.get req.collection req.id)) := by
  simp only [commands] at h
  split at h
  · cases h
  · cases h
  · exact (singleton_inj.1 h).symm

theorem command_of_fset {collection id : String} {fields : List FieldEntry} {xx : Bool}
    (h : (fset collection id fields xx).commands ctx v = [command]) :
    command = .fset collection id fields xx := by
  simp only [commands] at h
  split at h
  · exact (singleton_inj.1 h).symm
  · cases h

theorem command_of_del {collection id : String}
    (h : (del collection id).commands ctx v = [command]) : command = .del collection id := by
  simp only [commands] at h
  split at h
  · exact (singleton_inj.1 h).symm
  · cases h

variable (lib) in
theorem command_of_edit {request : Request} (hedits : request.edits)
    (h : request.commands ctx v = [command]) : command.readBack.relative = false ∧
      ∀ v : View, (v.apply lib 0 command.readBack).hooks = v.hooks := by
  cases request with
  | set req =>
    cases command_of_set h
    exact ⟨rfl, fun v => rfl⟩
  | fset collection id fields xx =>
    cases command_of_fset h
    exact ⟨rfl, fun v => rfl⟩
  | del collection id =>
    cases command_of_del h
    exact ⟨rfl, fun v => rfl⟩
  | _ => cases hedits

end Commands

def Object.traits (object : Object) : FieldMap × Option Nat := (object.fields, object.expiresAt)

/-- The replayed objects have the assigned fields. The live ones are the same, without some that
are past their deadline. -/
structure Accounts (clock : Nat) (assigned : String × String → Option (List FieldEntry))
    (live full : String → String → Option Object) : Prop where
  fields : ∀ c id, (full c id).map Object.fields = (assigned (c, id)).map (applyFieldUpdates ∅)
  objects : ∀ c id, (live c id).map Object.traits = (full c id).map Object.traits ∨
    (live c id = none ∧ ∃ object, full c id = some object ∧ isExpired clock object = true)

namespace Accounts

variable {clock : Nat} {assigned : String × String → Option (List FieldEntry)}
  {live full : String → String → Option Object}

theorem of_live (h : Accounts clock assigned live full) {c id : String} {object : Object}
    (hlive : live c id = some object) :
    ∃ object' assignments, full c id = some object' ∧ Object.traits object' = Object.traits object ∧
      assigned (c, id) = some assignments ∧ object.fields = applyFieldUpdates ∅ assignments := by
  rcases h.objects c id with heq | ⟨hnone, -⟩
  · rw [hlive, map_some] at heq
    obtain ⟨object', hfull, htraits⟩ := map_eq_some_iff.1 heq.symm
    have hfields := h.fields c id
    rw [hfull, map_some] at hfields
    obtain ⟨assignments, hassigned, hmerged⟩ := map_eq_some_iff.1 hfields.symm
    refine ⟨object', assignments, hfull, htraits, hassigned, ?_⟩
    rw [hmerged]
    exact (congrArg Prod.fst htraits).symm
  · cases hlive.symm.trans hnone

variable {key : String × String} {value : Option (List FieldEntry)}

theorem change (h : Accounts clock assigned live full)
    {after after' : Option Object} {live' full' : String → String → Option Object}
    (hlive : ∀ c id, live' c id = if key = (c, id) then after else live c id)
    (hfull : ∀ c id, full' c id = if key = (c, id) then after' else full c id)
    (htraits : after.map Object.traits = after'.map Object.traits)
    (hfields : after'.map Object.fields = value.map (applyFieldUpdates ∅)) :
    Accounts clock (Function.update assigned key value) live' full' := by
  refine ⟨fun c id => ?_, fun c id => ?_⟩
  · rw [hfull]
    by_cases hkey : key = (c, id)
    · subst hkey
      rw [if_pos rfl, Function.update_self, hfields]
    · rw [if_neg hkey, Function.update_of_ne (Ne.symm hkey), h.fields]
  · rw [hlive, hfull]
    by_cases hkey : key = (c, id)
    · rw [if_pos hkey, if_pos hkey]
      exact .inl htraits
    · rw [if_neg hkey, if_neg hkey]
      exact h.objects c id

variable {s : Ledger} {ctx : Ctx} {full : View}

theorem merged (h : Accounts clock s.assigned s.db.getObject full.get) {req : SetRequest}
    {assignments : List FieldEntry}
    (hassigns : s.assigns (.set req) = some (key, some assignments)) :
    mergedSetFields (s.db.getObject req.collection req.id) req.fields =
      applyFieldUpdates ∅ assignments := by
  cases hassigns
  rw [applyFieldUpdates_append, mergedSetFields]
  cases hbefore : s.db.getObject req.collection req.id with
  | none => rfl
  | some before =>
    obtain ⟨-, assignments, -, -, hassigned, hfields⟩ := h.of_live hbefore
    rw [hassigned, map_some, hfields]
    rfl

theorem edit (h : Accounts clock s.assigned s.db.getObject full.get) {request : Request}
    {event : MutationEvent} {command : Command} (hassigns : s.assigns request = some (key, value))
    (hevent : request.event? s.db ctx = some event)
    (hcommand : request.commands ctx s.db.view = [command]) {db' : Db}
    (hget : ∀ c id, db'.getObject c id =
      if event.collection = c ∧ event.id = id then event.after else s.db.getObject c id) :
    Accounts clock (Function.update s.assigned key value) db'.getObject
      (full.apply lib 0 command.readBack).get := by
  have hkey : ∀ c id, event.collection = c ∧ event.id = id ↔
      (event.collection, event.id) = (c, id) := fun c id => Prod.mk.injEq .. ▸ Iff.rfl
  simp only [hkey] at hget
  cases request with
  | set req =>
    obtain ⟨assignments, rfl⟩ : ∃ assignments, value = some assignments := by
      cases hassigns
      exact ⟨_, rfl⟩
    obtain rfl : (req.collection, req.id) = key := congrArg Prod.fst (some.inj hassigns)
    cases hevent
    have hset := command_of_set hcommand
    rw [s.db.view_get] at hset
    subst hset
    have hreplayed : ∀ c id,
        (full.apply lib 0 (Db.setRecord req (Db.setObject ctx req
          (s.db.getObject req.collection req.id))).readBack).get c id =
        if (req.collection, req.id) = (c, id) then
          some { Db.setObject ctx req (s.db.getObject req.collection req.id) with
            geo := GeoType.readBack req.object }
        else full.get c id := by
      intro c id
      show (full.upsert req.collection _).get c id = _
      rw [View.get_upsert, PersistedSetRecord.toObject, fieldEntriesToMap_fieldMapToEntries]
      simp only [Prod.mk.injEq]
      rfl
    exact h.change hget hreplayed rfl (congrArg some (h.merged hassigns))
  | fset collection id fields xx =>
    cases hassigns
    obtain ⟨before, hbefore, rfl⟩ := map_eq_some_iff.1 hevent
    obtain ⟨object, assignments, hfull, htraits, hassigned, hfields⟩ := h.of_live hbefore
    have hsame : object.fields = before.fields := congrArg Prod.fst htraits
    cases command_of_fset hcommand
    have hreplayed : ∀ c id',
        (full.apply lib 0 (Command.fset collection id fields xx).readBack).get c id' =
        if (collection, id) = (c, id') then
          some { object with fields := applyFieldUpdates object.fields fields }
        else full.get c id' := by
      intro c id'
      show (full.update collection _).get c id' = _
      rw [View.get_modify]
      simp only [Prod.mk.injEq]
      split
      next hkey =>
        obtain ⟨rfl, rfl⟩ := hkey
        rw [hfull]
        rfl
      · rfl
    refine h.change hget hreplayed ?_ ?_
    · show some (applyFieldUpdates before.fields fields, before.expiresAt) =
        some (applyFieldUpdates object.fields fields, object.expiresAt)
      rw [hsame, show object.expiresAt = before.expiresAt from congrArg Prod.snd htraits]
    · rw [hassigned]
      show some (applyFieldUpdates object.fields fields) = some (applyFieldUpdates ∅ _)
      rw [applyFieldUpdates_append, hsame, hfields]
  | del collection id =>
    cases hassigns
    obtain ⟨before, hbefore, rfl⟩ := map_eq_some_iff.1 hevent
    cases command_of_del hcommand
    have hreplayed : ∀ c id',
        (full.apply lib 0 (Command.del collection id).readBack).get c id' =
        if (collection, id) = (c, id') then none else full.get c id' := by
      intro c id'
      show (full.update collection _).get c id' = _
      rw [View.get_erase]
      simp only [Prod.mk.injEq]
    exact h.change hget hreplayed rfl rfl
  | _ => cases hassigns

end Accounts

namespace Ledger

variable (lib) in
structure Inv (s : Ledger) : Prop where
  stores : s.db.storage.storesCommandLog = true
  unhooked : s.db.view.hooks = ∅
  finite : ∀ key assigned, s.assigned key = some assigned → AllFinite assigned
  log : ∃ full, Replays lib s.db.storage.entries full ∧ full.hooks = ∅ ∧
    Accounts s.clock s.assigned s.db.getObject full.get

theorem edits_of_assigns {s : Ledger} {request : Request}
    {entry : (String × String) × Option (List FieldEntry)} (h : s.assigns request = some entry) :
    request.edits = true := by
  cases request <;> first | rfl | cases h

variable {result : Except CoreError Answer × Db} {key : String × String}
  {value : Option (List FieldEntry)}

theorem note_of_ne_true (s : Ledger)
    (h : result.1 ≠ .ok (.bool true)) : s.note key value result = { s with db := result.2 } := by
  unfold note
  split
  next db => exact absurd rfl h
  · rfl

theorem note_of_true (s : Ledger) (h : result.1 = .ok (.bool true)) :
    s.note key value result =
      { s with db := result.2, assigned := Function.update s.assigned key value } := by
  obtain ⟨answer, db⟩ := result
  cases h
  rfl

theorem db_note (s : Ledger) (key : String × String) (value : Option (List FieldEntry))
    (result : Except CoreError Answer × Db) : (s.note key value result).db = result.2 := by
  unfold note
  split <;> rfl

namespace Inv

variable {s s' : Ledger} {ctx : Ctx} {request : Request} {key : String × String}

theorem finite_assigns (h : Inv lib s) (hcond : Recordable lib (.edit ctx request) s)
    {assignments : List FieldEntry} (hassigns : s.assigns request = some (key, some assignments)) :
    AllFinite assignments := by
  have hnil : AllFinite [] := fun x hx => (nomatch hx)
  cases request with
  | set req =>
    cases hassigns
    refine AllFinite.append ?_ hcond.2
    split
    · exact hnil
    · cases hassigned : s.assigned (req.collection, req.id) with
      | none => exact hnil
      | some assigned => exact h.finite _ _ hassigned
  | fset collection id fields xx =>
    simp only [assigns, some.injEq, Prod.mk.injEq, map_eq_some_iff] at hassigns
    obtain ⟨-, assigned, hassigned, rfl⟩ := hassigns
    exact (h.finite _ _ hassigned).append hcond
  | del collection id => cases hassigns
  | _ => cases hassigns

theorem finite_command (h : Inv lib s) (hcond : Recordable lib (.edit ctx request) s)
    {value : Option (List FieldEntry)} (hassigns : s.assigns request = some (key, value))
    {command : Command} (hcommand : request.commands ctx s.db.view = [command]) :
    ∀ x ∈ command.readBack.unchecked, x.Finite := by
  cases request with
  | set req =>
    obtain ⟨assignments, rfl⟩ : ∃ assignments, value = some assignments := by
      cases hassigns
      exact ⟨_, rfl⟩
    obtain ⟨full, -, -, haccounts⟩ := h.log
    have hmerged := haccounts.merged hassigns
    have hset := command_of_set hcommand
    rw [s.db.view_get] at hset
    subst hset
    show ∀ x ∈ GeoType.altitude (GeoType.readBack req.object) ++
      (fieldMapToEntries (mergedSetFields _ req.fields)).flatMap FieldEntry.numbers, x.Finite
    rw [hmerged, forall_mem_append]
    refine ⟨fun x hx => ?_, (h.finite_assigns hcond hassigns).entries⟩
    cases hgeo : req.object with
    | point lat lon z =>
      rw [hgeo] at hx
      exact (mem_filter_iff.1 (mem_toList.1 hx)).2
    | _ =>
      rw [hgeo] at hx
      cases hx
  | fset collection id fields xx =>
    cases command_of_fset hcommand
    exact hcond
  | del collection id =>
    cases command_of_del hcommand
    exact fun x hx => (nomatch hx)
  | _ => cases hassigns

theorem edit (hserde : lib.codec.Derived lib.toGeoLib parse) (h : Inv lib s)
    (hcond : Recordable lib (.edit ctx request) s)
    (hstep : step lib (.edit ctx request) s = some s') : Inv lib s' := by
  obtain ⟨⟨key, value⟩, hassigns, rfl⟩ := map_eq_some_iff.1 hstep
  have hedits := edits_of_assigns hassigns
  obtain ⟨full, hreplays, hfullHooks, haccounts⟩ := h.log
  have hkeeps : (Call.request request).KeepsRestorable lib s.db ctx := by
    cases request with
    | set req => exact hcond.1
    | _ => trivial
  have hlogs := @Db.perform_logs lib s.db ctx request h.stores h.unhooked hedits hkeeps
  -- what the call leaves of the objects and of the fences
  rcases s.db.perform_edit lib ctx hedits with
    ⟨hget, hfences, -, hanswer⟩ | ⟨event, hevent, hanswer, hget, hfences⟩
  · rcases hlogs with ⟨hsame, -⟩ | ⟨htrue, -⟩
    · show Inv lib (s.note key value (s.db.perform lib ctx request))
      rw [s.note_of_ne_true hanswer]
      refine ⟨hsame.stores.trans h.stores, ?_, h.finite, full, ?_, hfullHooks, ?_⟩
      · show (s.db.perform lib ctx request).2.geofences.hooks.defs = ∅
        rw [hfences]
        exact h.unhooked
      · show Replays lib (s.db.perform lib ctx request).2.storage.entries full
        rwa [hsame.entries]
      · show Accounts s.clock s.assigned (s.db.perform lib ctx request).2.getObject full.get
        rwa [show (s.db.perform lib ctx request).2.getObject = s.db.getObject from
          funext fun c => funext fun id => hget c id]
    · exact absurd htrue hanswer
  · rcases hlogs with ⟨-, hne⟩ | ⟨-, command, hcommand, hone⟩
    · exact absurd hanswer hne
    · show Inv lib (s.note key value (s.db.perform lib ctx request))
      rw [s.note_of_true hanswer]
      obtain ⟨entry, hentries, hpositive, hjson⟩ := hone.entry
      have hdecode := hserde.decode_readBack hone.checked
        (h.finite_command hcond hassigns hcommand) hjson
      obtain ⟨habsolute, hhooks⟩ := command_of_edit lib hedits hcommand
      refine ⟨hone.stores, ?_, ?_, full.apply lib 0 command.readBack, ?_, ?_, ?_⟩
      · show (s.db.perform lib ctx request).2.geofences.hooks.defs = ∅
        rw [show (s.db.perform lib ctx request).2.geofences = _ from congrArg Prod.fst hfences]
        exact (Registry.defs_applyPreparedMutation_hooks ..).trans h.unhooked
      · intro key' assigned' hassigned
        dsimp only at hassigned
        by_cases hkey : key' = key
        · subst hkey
          rw [Function.update_self] at hassigned
          subst hassigned
          exact h.finite_assigns hcond hassigns
        · rw [Function.update_of_ne hkey] at hassigned
          exact h.finite key' assigned' hassigned
      · show Replays lib (s.db.perform lib ctx request).2.storage.entries _
        rw [hentries]
        have hholds : Holds lib [entry] [.command command.readBack] :=
          congrArg (fun r => [r]) hdecode
        refine hreplays.append ?_ hholds ?_ fun now => ?_
        · exact fun e he => mem_singleton.1 he ▸ hpositive
        · exact fun c hc => mem_singleton.1 hc ▸ hone.replayable.readBack
        · exact View.apply_of_absolute habsolute full now 0
      · exact (hhooks full).trans hfullHooks
      · exact haccounts.edit hassigns hevent hcommand hget

theorem restart (h : Inv lib s) {config : Config}
    (hstep : step lib (.restart ctx config) s = some s') : Inv lib s' := by
  simp only [step] at hstep
  split at hstep
  · cases hstep
  next db hbuild =>
    cases hstep
    obtain ⟨full, hreplays, hfullHooks, haccounts⟩ := h.log
    obtain ⟨hsame, htrim⟩ := hreplays.build hbuild
    refine ⟨hsame.stores.trans h.stores, htrim.hooks.trans hfullHooks, h.finite, full, ?_,
      hfullHooks, haccounts.fields, fun c id => ?_⟩
    · show Replays lib db.storage.entries full
      rwa [hsame.entries]
    · show (db.getObject c id).map Object.traits = _ ∨ _
      rw [← db.view_get]
      rcases htrim.objects c id with heq | ⟨hnone, object, hfull, hexpired⟩
      · exact .inl (congrArg _ heq)
      · have hlater : isExpired (max s.clock ctx.nowMs) object = true :=
          isExpired_mono (le_max_right _ _) hexpired
        exact .inr ⟨hnone, object, hfull, hlater⟩

theorem merged (h : Inv lib s) : s.Merged lib := by
  obtain ⟨full, hreplays, -, haccounts⟩ := h.log
  have hfields : ∀ c id object, s.db.getObject c id = some object →
      ∃ assigned, s.assigned (c, id) = some assigned ∧
        ∀ name, object.fields[name]? = lastAssigned assigned name := by
    intro c id object hget
    obtain ⟨-, assignments, -, -, hassigned, hmerged⟩ := haccounts.of_live hget
    exact ⟨assignments, hassigned, fun name => by rw [hmerged, getElem?_assigned]⟩
  refine ⟨hfields, ?_, ?_⟩
  · intro c id object name value hget hvalue
    obtain ⟨assigned, -, hlast⟩ := hfields c id object hget
    exact lastAssigned_ne_zero ((hlast name).symm.trans hvalue)
  · intro now
    obtain ⟨replayed, hreplay, rfl⟩ := hreplays.replayLog now
    refine ⟨replayed, hreplay, fun c id => ?_⟩
    have hfull := haccounts.fields c id
    cases hassigned : s.assigned (c, id) with
    | none =>
      rw [hassigned, map_none, map_eq_none_iff] at hfull
      refine ⟨?_, hfull⟩
      rcases haccounts.objects c id with heq | ⟨hnone, -⟩
      · rwa [hfull, map_none, map_eq_none_iff] at heq
      · exact hnone
    | some assigned =>
      rw [hassigned, map_some] at hfull
      obtain ⟨object, hobject, hmerged⟩ := map_eq_some_iff.1 hfull
      refine ⟨object, hobject, fun name => by rw [hmerged, getElem?_assigned], ?_⟩
      rcases haccounts.objects c id with heq | ⟨hnone, object', hobject', hexpired⟩
      · rw [hobject, map_some] at heq
        obtain ⟨stored, hstored, htraits⟩ := map_eq_some_iff.1 heq
        rw [hstored]
        exact (congrArg Prod.fst htraits).symm
      · cases hobject.symm.trans hobject'
        rw [hnone]
        exact hexpired

theorem step (hserde : lib.codec.Derived lib.toGeoLib parse) {event : LedgerEvent}
    (h : Inv lib s) (hcond : Recordable lib event s) (hstep : Ledger.step lib event s = some s') :
    Inv lib s' := by
  cases event with
  | edit ctx request => exact h.edit hserde hcond hstep
  | restart ctx config => exact h.restart hstep

theorem start {storage : LogStore} {config : Config} {db : Db} (hempty : storage.entries = [])
    (hstores : storage.storesCommandLog)
    (hbuild : (build lib ctx storage config).1 = .ok db) : Inv lib { db } := by
  obtain ⟨hstorage, -, hview, -⟩ := build_empty hempty hbuild
  have hsame := storage.sameLog_fault
  rw [← hstorage] at hsame
  have hnone : ∀ c id, db.getObject c id = none := by
    intro c id
    rw [← db.view_get, hview]
    rfl
  refine ⟨hsame.stores.trans hstores, ?_, fun _ _ h => (nomatch h), {}, ?_, rfl,
    fun _ _ => rfl, fun c id => .inl ?_⟩
  · show db.view.hooks = ∅
    rw [hview]
  · show Replays lib db.storage.entries {}
    rw [hsame.entries, hempty]
    exact Replays.nil
  · show (db.getObject c id).map Object.traits = none
    rw [hnone]
    rfl

end Inv

theorem set_keeps_unmentioned {s s' : Ledger} {ctx : Ctx} {req : SetRequest}
    (hstep : step lib (.edit ctx (.set req)) s = some s') {object : Object}
    (hget : s.db.getObject req.collection req.id = some object) :
    ∃ object', s'.db.getObject req.collection req.id = some object' ∧
      ∀ name, (∀ entry ∈ req.fields, entry.name ≠ name) →
        object'.fields[name]? = object.fields[name]? := by
  have hnoted : (s.assigns (.set req)).map (fun (key, value) =>
      s.note key value (s.db.perform lib ctx (.set req))) = some s' := hstep
  obtain ⟨⟨key, value⟩, -, rfl⟩ := map_eq_some_iff.1 hnoted
  show ∃ object', (s.note key value _).db.getObject req.collection req.id = some object' ∧ _
  rw [db_note]
  have hedits : (set req).edits = true := rfl
  rcases s.db.perform_edit lib ctx hedits with
    ⟨hsame, -⟩ | ⟨event, hevent, -, hafter, -⟩
  · exact ⟨object, (hsame _ _).trans hget, fun _ _ => rfl⟩
  · cases hevent
    refine ⟨_, (hafter _ _).trans (if_pos ⟨rfl, rfl⟩), fun name hname => ?_⟩
    rw [hget]
    exact getElem?_applyFieldUpdates_of_ne hname

/-- In every state that a run of recordable calls and restarts reaches, the fields of an object
are the values assigned last since it was created. No field is the number zero, and replaying the
log gives the same fields. A further SET leaves the fields that it does not mention. -/
theorem fields_last_assigned (hserde : lib.codec.Derived lib.toGeoLib parse) {ctx₀ : Ctx}
    {storage : LogStore} {config : Config} {db : Db} (hempty : storage.entries = [])
    (hstores : storage.storesCommandLog)
    (hbuild : (build lib ctx₀ storage config).1 = .ok db) {events : List LedgerEvent} {s : Ledger}
    (hmeet : StepsMeet (step lib) (Recordable lib) events { db })
    (hrun : runSteps (step lib) events { db } = some s) :
    s.Merged lib ∧ ∀ ctx req s' object, step lib (.edit ctx (.set req)) s = some s' →
      s.db.getObject req.collection req.id = some object →
      ∃ object', s'.db.getObject req.collection req.id = some object' ∧
        ∀ name, (∀ entry ∈ req.fields, entry.name ≠ name) →
          object'.fields[name]? = object.fields[name]? := by
  have hinv := runSteps_invariant (fun _ _ _ h hcond hstep => Inv.step hserde h hcond hstep)
    (Inv.start hempty hstores hbuild) hmeet hrun
  exact ⟨hinv.merged, fun _ _ _ _ hstep hget => set_keeps_unmentioned hstep hget⟩

open Sample in
/-- A truck that is set with a speed, and a restart. -/
theorem speed_ninety_kept :
    let events : List LedgerEvent :=
      [.edit sampleCtx (setSpeed F64.ninety), .restart sampleCtx {}]
    ∃ s, runSteps (step speedLib) events { db := { storage := {} } } = some s ∧
      s.assigned ("fleet", "truck") = some [{ name := "speed", value := .number F64.ninety }] ∧
      (s.db.getObject "fleet" "truck").map (fun object => object.fields["speed"]?) =
        some (some (.number F64.ninety)) ∧
      s.Merged speedLib := by
  intro events
  have hmeet : StepsMeet (step speedLib) (Recordable speedLib) events
      { db := { storage := {} } } := by
    refine .cons ⟨fun _ => rfl, fun x hx => ?_⟩ rfl (.cons trivial rfl trivial)
    change x ∈ [F64.ninety] at hx
    cases mem_singleton.1 hx
    rfl
  have hbuild : (build speedLib sampleCtx {} {}).1 = .ok { storage := {} } := rfl
  exact ⟨_, rfl, rfl, rfl, (fields_last_assigned speedLib_derived rfl rfl hbuild hmeet rfl).1⟩

open Sample in
/-- The field is stored as it was assigned, but the log cannot be replayed and the database does
not start again. -/
theorem speed_nan_lost :
    ∃ s, runSteps (step speedLib) [.edit sampleCtx (setSpeed F64.nan)]
        { db := { storage := {} } } = some s ∧
      (s.db.getObject "fleet" "truck").map (fun object => object.fields["speed"]?) =
        some (some (.number F64.nan)) ∧
      (∀ now, (replayLog speedLib now s.db.storage.entries).isOk = false) ∧
      ∀ config, step speedLib (.restart sampleCtx config) s = none :=
  ⟨_, rfl, rfl, fun _ => rfl, fun _ => rfl⟩

end Ledger

end LatLng.Core
