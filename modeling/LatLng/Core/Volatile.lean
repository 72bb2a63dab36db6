import LatLng.Core.Roaming

/-! SET of a point over a backend that keeps no command log. If no fence concerns the collection
the object goes straight in, and the answer and the state are those of the general path. -/

namespace LatLng.Core

open Geo Geofence Index Storage Std

variable {lib : Lib}

variable (lib) in
/-- An upsert that fails has used up the sequence number and leaves the version. -/
def Db.setVolatile (db : Db) (req : SetRequest) (cell : VersionedCollection) :
    Except CoreError Answer × Db :=
  let object :=
    { id := req.id, geo := req.object, expiresAt := none
      fields := mergedSetFields cell.objects[req.id]? req.fields }
  let db := (db.reserveSequences 1).2
  match cell.collection.upsert lib.toFenceLib object with
  | (.error e, collection) =>
    (.error e, { db with toStore := db.setCell req.collection { cell with collection } })
  | (.ok (), collection) =>
    (.ok (.bool true), { db with toStore := db.setCell req.collection (cell.bump collection) })

/-- No fence is on the collection or roams against it. -/
def Unconcerned (r : Registry) (collection : String) : Prop :=
  ∀ fence d state, r.fence? fence = some (d, state) →
    d.collection ≠ collection ∧ d.target? ≠ some collection

theorem sideEffects_eq_false {ε : Type} {t : FenceTable ε} (h : t.Indexed) {collection : String}
    (hnone : ∀ (name : String) (stored : Stored ε), t.fences[name]? = some stored →
      stored.def_.collection ≠ collection ∧ stored.def_.target? ≠ some collection) :
    t.sideEffects collection = false := by
  have hown : t.byCollection[collection]?.getD [] = [] := by
    refine List.eq_nil_iff_forall_not_mem.2 fun name hmem => ?_
    obtain ⟨d, hd, hcollection⟩ := Option.map_eq_some_iff.1 ((h.own collection name).1 hmem)
    obtain ⟨stored, hstored, rfl⟩ := Option.map_eq_some_iff.1 hd
    exact (hnone name stored hstored).1 hcollection
  have htarget : t.byTargetCollection[collection]?.getD [] = [] := by
    refine List.eq_nil_iff_forall_not_mem.2 fun name hmem => ?_
    obtain ⟨d, hd, hcollection⟩ := Option.bind_eq_some_iff.1 ((h.target collection name).1 hmem)
    obtain ⟨stored, hstored, rfl⟩ := Option.map_eq_some_iff.1 hd
    exact (hnone name stored hstored).2 hcollection
  simp [FenceTable.sideEffects, hasIndexedNames, hown, htarget]

theorem Unconcerned.unseen {r : Registry} (hr : r.Indexed) {collection : String}
    (h : Unconcerned r collection) : r.hasRelevantSideEffects collection = false := by
  refine Bool.or_eq_false_iff.2 ⟨sideEffects_eq_false hr.channels fun name stored hs => ?_,
    sideEffects_eq_false hr.hooks fun name stored hs => ?_⟩
  · exact h (.channel name) stored.def_ stored.state (by rw [Registry.fence?, hs]; rfl)
  · exact h (.hook name) stored.def_ stored.state (by rw [Registry.fence?, hs]; rfl)

/-- With nothing to log, a write of one record is the change itself. -/
theorem Db.commit_volatile {db : Db} (hvolatile : db.storage.storesCommandLog = false) (ctx : Ctx)
    {req : SetRequest} {cell : VersionedCollection}
    (hcell : db.collections[req.collection]? = some cell) {batch : Batch} (hone : batch.count = 1)
    {planned : List PreparedMutation}
    (hplanned : planned.foldl Registry.applyPreparedMutation db.geofences = db.geofences)
    (version : Option Nat) :
    db.commit lib ctx
      { batch, planned, version, reply := fun _ => .ok (.bool true)
        effect := .mutate req.collection (.upsert
          { id := req.id, geo := req.object, expiresAt := none
            fields := mergedSetFields cell.objects[req.id]? req.fields }) } =
      db.setVolatile lib req cell := by
  have hpersist := @persist_of_pos lib db ctx batch (by omega)
  rw [hvolatile, if_neg Bool.false_ne_true, hone] at hpersist
  rw [commit, hpersist, setVolatile]
  simp only [Write.apply, Effect.apply, Mutation.apply, Store.ensureCollectionCell, hcell,
    Option.getD_some, reserveSequences]
  rcases cell.collection.upsert lib.toFenceLib _ with ⟨_ | _, collection⟩
  · rfl
  · simp only [Store.applyPlanned, Store.setCell, hplanned]

/-- In every state that can be reached: if no fence concerns the collection, nothing is prepared,
the shortcut ends as the general path does, and the local SET takes it. -/
theorem volatile_set_invisible {ctx₀ : Ctx} {storage : LogStore} {config : Config} {db₀ : Db}
    (hbuild : (build lib ctx₀ storage config).1 = .ok db₀) (calls : List (Ctx × Call)) {db : Db}
    (hdb : db = db₀.run lib calls) (hvolatile : db.storage.storesCommandLog = false) (ctx : Ctx)
    {req : SetRequest} (halways : req.condition = .always) (hexpire : req.expireSeconds = none)
    (hpoint : Db.isPoint req.object) {cell : VersionedCollection}
    (hcell : db.collections[req.collection]? = some cell)
    (hfences : Unconcerned db.geofences req.collection) :
    (∀ event, event.collection = req.collection →
      db.planMutation lib ctx event = ⟨[], [], [], 0⟩) ∧
    db.setVolatile lib req cell = db.finish lib ctx (db.planSet lib ctx req (some cell.version)) ∧
    (db.ensureWritable = .ok () →
      db.geofences.requiresExclusiveRoamPath req.collection = false →
      (db.trySetLocal lib ctx req).map (db.finish lib ctx) = some (db.setVolatile lib req cell)) := by
  have hindexed : db.geofences.Indexed := by
    rw [hdb]
    exact Store.Reaches.indexed (Relation.ReflTransGen.trans (Db.reaches_build hbuild)
      (Db.Reaches.of_run lib db₀ calls)) ⟨FenceTable.indexed_empty, FenceTable.indexed_empty⟩
  have hunseen := hfences.unseen hindexed
  have hprepared : ∀ event, event.collection = req.collection →
      db.planMutation lib ctx event = ⟨[], [], [], 0⟩ := by
    intro event hevent
    rw [← hevent] at hunseen
    exact prepareMutation_unseen hunseen _ _
  have hbefore : db.getObject req.collection req.id = cell.objects[req.id]? := by
    rw [Db.getObject, hcell, Option.bind_some]
  refine ⟨hprepared, ?_, fun hwritable hlocal => ?_⟩
  · rw [Db.planSet, halways]
    dsimp only
    rw [Db.planEvent, hprepared _ rfl, hbefore, Db.setObject, hexpire]
    exact (Db.commit_volatile hvolatile ctx hcell rfl rfl (some cell.version)).symm
  · rw [Db.trySetLocal, hwritable]
    dsimp only
    rw [hlocal, hcell, if_neg Bool.false_ne_true]
    dsimp only
    rw [if_pos (by simp [hvolatile, halways, hexpire, hpoint, hunseen]), Option.map_some]
    exact congrArg some (Db.commit_volatile hvolatile ctx hcell rfl rfl none)

namespace Volatile

open Sample

def parking : Db :=
  Db.run sampleLib { storage := { storesCommandLog := false } }
    [(sampleCtx, .request (setIdle "fleet" "truck"))]

def position : SetRequest where
  collection := "fleet"
  id := "truck"
  object := .point F64.zero F64.zero none
  fields := []
  expireSeconds := none
  condition := .always

theorem position_goes_straight_in : ∃ cell, parking.collections["fleet"]? = some cell ∧
    (parking.trySetLocal sampleLib sampleCtx position).map (parking.finish sampleLib sampleCtx) =
      some (parking.finish sampleLib sampleCtx
        (parking.planSet sampleLib sampleCtx position (some cell.version))) := by
  have hfences : Unconcerned parking.geofences "fleet" := by
    intro fence d state h
    cases fence <;> cases h
  refine ⟨_, rfl, ?_⟩
  obtain ⟨-, heq, hlocal⟩ := @volatile_set_invisible sampleLib sampleCtx
    { storesCommandLog := false } {} _ rfl _ parking rfl rfl sampleCtx position rfl rfl rfl _ rfl
    hfences
  rw [← heq]
  exact hlocal rfl rfl

end Volatile

end LatLng.Core
