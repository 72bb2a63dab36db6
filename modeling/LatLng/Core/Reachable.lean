import LatLng.Core.Compact

/-! How the state of a database moves. Every call is a sequence of steps of a few kinds, and what
each kind of step keeps holds in every state that can be reached. -/

namespace LatLng.Core

open Geo Geofence Storage Relation.ReflTransGen

variable {lib : Lib}

variable (lib) in
inductive Store.Moves : Store → Store → Prop
  | write {s : Store} {w : Write} {aim : Aim} (h : w.Intended lib s.view aim) :
    Moves s (w.apply lib s).2
  | replay (s : Store) (now : Nat) (command : Command) :
    Moves s (applyPersistedCommandToState lib now s command).2
  | gc (s : Store) (now : Nat) : Moves s (s.gcCollections now)
  | clear (s : Store) : Moves s s.clear

variable (lib) in
def Store.Reaches : Store → Store → Prop := Relation.ReflTransGen (Store.Moves lib)

/-! ### What a step keeps -/

/-- The indexes of every collection fit its objects, and every fence is one that replay accepts. -/
structure Store.Wellformed (s : Store) : Prop where
  keyed : s.Keyed
  evaluable : s.view.Evaluable

theorem View.Evaluable.congr {v v' : View} (h : v.Evaluable) (hchannels : v'.channels = v.channels)
    (hhooks : v'.hooks = v.hooks) : v'.Evaluable := by
  refine ⟨?_, ?_⟩
  · rw [hchannels]
    exact h.channels
  · rw [hhooks]
    exact h.hooks

theorem View.Evaluable.applyAll {v : View} (h : v.Evaluable) (now : Nat) (commands : List Command) :
    (commands.foldl (View.apply lib now) v).Evaluable := by
  induction commands generalizing v with
  | nil => exact h
  | cons c commands ih => exact ih (h.applyRecord now (.command c))

theorem Effect.geofences_mutate (s : Store) (c : String) (m : Mutation) :
    ((Effect.mutate c m).apply lib s).2.geofences = s.geofences := by
  rw [Effect.apply]
  split <;> rfl

variable {s : Store}

theorem Write.Intended.evaluable {w : Write} {aim : Aim}
    (hw : w.Intended lib s.view aim) (h : s.view.Evaluable) : (w.apply lib s).2.view.Evaluable := by
  cases hidx : w.effect.indexable lib with
  | true =>
    obtain ⟨-, -, hview⟩ := hw.ok hidx 0
    rw [hview]
    exact h.applyAll 0 _
  | false =>
    obtain ⟨e, he⟩ := hw.error hidx
    obtain ⟨c, m, hm⟩ : ∃ c m, w.effect = .mutate c m := by
      cases hc : w.effect with
      | mutate c m => exact ⟨c, m, rfl⟩
      | _ =>
        rw [hc] at hidx
        cases hidx
    rw [he, hm]
    have hsame := @Effect.geofences_mutate lib s c m
    exact h.congr (congrArg (·.channels.defs) hsame) (congrArg (·.hooks.defs) hsame)

theorem geofences_replayUpsert (s : Store) (name : String) (object : Object) :
    (s.replayUpsert lib name object).2.geofences = s.geofences := by
  rw [Store.replayUpsert]
  split <;> rfl

theorem evaluable_replay (h : s.view.Evaluable) (now : Nat) (command : Command) :
    (applyPersistedCommandToState lib now s command).2.view.Evaluable := by
  rcases applyPersistedCommandToState_cases lib now s command with ⟨-, -, hview⟩ | ⟨hno, -⟩
  · rw [hview]
    exact h.applyRecord now (.command command)
  · -- only a geometry can be refused, and then the fences stay as they are
    have hupsert : ∀ name object, (s.replayUpsert lib name object).2.view.Evaluable := by
      intro name object
      have hsame := @geofences_replayUpsert lib s name object
      exact h.congr (congrArg (·.channels.defs) hsame) (congrArg (·.hooks.defs) hsame)
    cases command with
    | set req => exact hupsert _ _
    | setPersisted record => exact hupsert _ _
    | _ => exact absurd nofun hno

theorem Store.Moves.wellformed {s' : Store} (hm : s.Moves lib s') (h : s.Wellformed) :
    s'.Wellformed := by
  cases hm with
  | write hw => exact ⟨h.keyed.write lib _, hw.evaluable h.evaluable⟩
  | replay now command =>
    exact ⟨((Collection.keyed_kept lib).applyPersistedCommand h.keyed now command).same,
      evaluable_replay h.evaluable now command⟩
  | gc now => exact ⟨h.keyed.gcCollections now, h.evaluable.congr rfl rfl⟩
  | clear =>
    refine ⟨s.keyed_clear, ?_⟩
    exact View.evaluable_empty

theorem Store.Reaches.wellformed {s' : Store} (hr : s.Reaches lib s') (h : s.Wellformed) :
    s'.Wellformed := by
  induction hr with
  | refl => exact h
  | tail _ hm ih => exact hm.wellformed ih

theorem Store.wellformed_empty : ({} : Store).Wellformed := by
  refine ⟨Store.keyed_empty, ?_⟩
  exact View.evaluable_empty

/-! ### Every call is a sequence of steps -/

theorem Store.Reaches.applyPersistedEntries (s : Store) (now : Nat) (entries : List StorageEntry) :
    s.Reaches lib (applyPersistedEntries lib now s entries).2 := by
  induction entries generalizing s with
  | nil => exact .refl
  | cons entry entries ih =>
    have hfirst : s.Reaches lib (applyPersistedEntryToState lib now s entry).2 := by
      rw [applyPersistedEntryToState]
      split
      · exact .refl
      · exact .single (.replay s now _)
      · exact .refl
    rw [Core.applyPersistedEntries]
    rcases hr : applyPersistedEntryToState lib now s entry with ⟨_ | _, s'⟩ <;> rw [hr] at hfirst
    · exact hfirst
    · exact hfirst.trans (ih s')

namespace Db

variable (lib) in
def Reaches (db db' : Db) : Prop := db.toStore.Reaches lib db'.toStore

namespace Reaches

variable {db : Db} {ctx : Ctx}

theorem of_same {db' : Db} (h : db'.toStore = db.toStore) : db.Reaches lib db' := by
  rw [Reaches, h]
  exact .refl

theorem finish (ctx : Ctx) {plan : Plan} {aim : Aim} (h : plan.Intended lib db.view aim) :
    db.Reaches lib (db.finish lib ctx plan).2 := by
  cases plan with
  | done result => exact .refl
  | write w =>
    rw [Db.finish]
    rcases db.commit_cases lib ctx w with ⟨e, -, hun, -⟩ | ⟨db', -, hcommit⟩
    · exact of_same hun.store
    · rw [hcommit]
      exact .single (.write h)

theorem delete {start : Db} (db : Db) (collection id : String) (h : start.Reaches lib db) :
    Ends (start.Reaches lib) (start.Reaches lib)
      (db.finish lib ctx (db.delExclusive lib ctx collection id)) := by
  have hplan := db.delExclusive_intended lib ctx collection id
  have hfinish : start.Reaches lib (db.finish lib ctx (db.delExclusive lib ctx collection id)).2 :=
    trans h (finish ctx hplan)
  exact .of_snd hfinish

theorem appendLogRecords (records : List LogRecord) :
    db.Reaches lib (db.appendLogRecords lib ctx records).2 :=
  of_same (db.toStore_appendLogRecords ctx records)

theorem rewriteLogSnapshot (records : List LogRecord) :
    db.Reaches lib (db.rewriteLogSnapshot lib ctx records).2 :=
  of_same (db.toStore_rewriteLogSnapshot ctx records)

theorem flushdb : db.Reaches lib (db.flushdb lib ctx).2 := by
  rcases db.flushdb_steps lib ctx with ⟨e, -, hun⟩ | ⟨db', -, hstore, hr⟩
  · exact of_same hun.store
  · rw [hr]
    exact tail (of_same hstore) (.clear _)

theorem resetReplicationState : db.Reaches lib db.resetReplicationState.2 := by
  rw [Db.resetReplicationState]
  split <;> exact .single (.clear _)

theorem applyReplicatedEntries (entries : List StorageEntry) :
    db.Reaches lib (db.applyReplicatedEntries lib ctx entries).2 := by
  have hreplay := @Store.Reaches.applyPersistedEntries lib db.toStore ctx.nowMs entries
  rcases db.applyReplicatedEntries_cases lib ctx entries with
    ⟨-, hr⟩ | ⟨-, e, storage, -, -, hr⟩ | ⟨-, -, storage, -, -, -, hr⟩
  · rw [hr]
    exact .refl
  · rw [hr]
    exact .refl
  rw [hr, Db.appliedBatch]
  split
  next hr =>
    rw [hr] at hreplay
    exact hreplay
  next hr =>
    rw [hr] at hreplay
    exact tail hreplay (.gc _ _)

variable (lib db ctx) in
theorem of_call (call : Call) : db.Reaches lib (db.call lib ctx call).2 := by
  cases call with
  | request request => exact finish ctx (request.plan_intended lib db ctx)
  | pdel collection pattern =>
    exact (Db.pdel_ends (fun db => delete db collection) (fun _ h => h) (of_same rfl) pattern).same
  | expireDue nowMs max =>
    exact (Db.expireDue_ends delete (fun _ _ h => h) (of_same rfl) nowMs max).same
  | gc => exact .single (.gc _ _)
  | flushdb => exact flushdb
  | aofshrink => exact rewriteLogSnapshot _
  | appendLogRecords records => exact appendLogRecords records
  | rewriteLogSnapshot records => exact rewriteLogSnapshot records
  | resetReplicationState => exact resetReplicationState
  | applyReplicatedEntries entries => exact applyReplicatedEntries entries
  | _ => exact .refl

variable (lib db) in
theorem of_run (calls : List (Ctx × Call)) : db.Reaches lib (db.run lib calls) := by
  induction calls generalizing db with
  | nil => exact .refl
  | cons step calls ih =>
    exact trans (of_call lib db step.1 step.2) (ih _)

end Reaches

theorem reaches_build {ctx : Ctx} {storage : LogStore} {config : Config} {db : Db}
    (h : (build lib ctx storage config).1 = .ok db) : ({} : Store).Reaches lib db.toStore := by
  obtain ⟨s, hreplay, rfl⟩ := build_eq_ok h
  have hentries := @Store.Reaches.applyPersistedEntries lib {} ctx.nowMs
    (storage.entries.filter fun entry => 0 < entry.sequence)
  rw [replayLog_eq_ok hreplay] at hentries
  exact tail hentries (.gc _ _)

theorem wellformed_run {ctx : Ctx} {storage : LogStore} {config : Config} {db : Db}
    (h : (build lib ctx storage config).1 = .ok db) (calls : List (Ctx × Call)) :
    (db.run lib calls).Wellformed :=
  Store.Reaches.wellformed
    (trans (reaches_build h) (Reaches.of_run lib db calls))
    Store.wellformed_empty

end Db

end LatLng.Core
