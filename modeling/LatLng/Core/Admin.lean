import LatLng.Core.Commit

/-! Calls that walk several objects, rewrite the log or replace the state, and the set of all
public calls. -/

namespace LatLng.Core

open Geo Geofence Storage List

variable (lib : Lib)

namespace Db

def delEach (db : Db) (ctx : Ctx) (collection : String) :
    List String → Nat → Except CoreError Nat × Db
  | [], removed => (.ok removed, db)
  | id :: ids, removed =>
    match db.finish lib ctx (db.delExclusive lib ctx collection id) with
    | (.error e, db) => (.error e, db)
    | (.ok answer, db) =>
      db.delEach ctx collection ids (if answer = .bool true then removed + 1 else removed)

def pdel (db : Db) (ctx : Ctx) (collection pattern : String) : Except CoreError Nat × Db :=
  match db.ensureWritable with
  | .error e => (.error e, db)
  | .ok () =>
    let ids := match db.collections[collection]? with
      | none => []
      | some cell => (ctx.order cell.objects.keys).filter (lib.globMatch pattern)
    db.delEach lib ctx collection ids 0

def dueIn (db : Db) (name : String) (nowMs max : Nat) : List String :=
  match db.collections[name]? with
  | none => []
  | some cell => cell.collection.dueExpirations nowMs max

def expireCollections (db : Db) (ctx : Ctx) (nowMs max : Nat) :
    List String → Nat → Except CoreError Nat × Db
  | [], expired => (.ok expired, db)
  | name :: names, expired =>
    if max ≤ expired then (.ok expired, db)
    else
      match db.delEach lib ctx name (db.dueIn name nowMs (max - expired)) expired with
      | (.error e, db) => (.error e, db)
      | (.ok expired, db) => db.expireCollections ctx nowMs max names expired

def expireDue (db : Db) (ctx : Ctx) (nowMs max : Nat) : Except CoreError Nat × Db :=
  if db.config.readOnly then (.ok 0, db)
  else
    match db.expireCollections lib ctx nowMs max (ctx.order db.collections.keys) 0 with
    | (.error e, db) => (.error e, db)
    | (.ok expired, db) =>
      (.ok expired, { db with expiredObjectsTotal := db.expiredObjectsTotal + expired })

def gc (db : Db) (ctx : Ctx) : Db := { db with toStore := db.gcCollections ctx.nowMs }

def flushdb (db : Db) (ctx : Ctx) : Except CoreError Unit × Db :=
  match db.ensureWritable with
  | .error e => (.error e, db)
  | .ok () =>
    match db.appendLogRecords lib ctx [.command .flushDb] with
    | (.error e, db) => (.error e, db)
    | (.ok _, db) =>
      let (result, storage) := db.storage.snapshot []
      (result.mapError .storage, { db with toStore := db.clear, storage })

/-! ### Compaction -/

def snapshotObject (collection : String) (object : String × Object) : LogRecord :=
  .command (.setPersisted
    { collection, id := object.1, object := object.2.geo
      fields := fieldMapToEntries object.2.fields, expiresAtMs := object.2.expiresAt })

def snapshotCollections (s : Store) (now : Nat) : List LogRecord :=
  s.collections.toList.flatMap fun (name, cell) =>
    .command (.createCollection name) ::
      (cell.objects.toList.filter fun object => !isExpired now object.2).map (snapshotObject name)

def snapshotChannels (s : Store) : List LogRecord :=
  s.geofences.channelDefs.map fun (name, d) => .command (.setChannel name d)

def snapshotHooks (s : Store) : List LogRecord :=
  s.geofences.hookDefs.map fun (name, endpoint, d) => .command (.setHook name endpoint d)

def snapshotBaseLogRecords (db : Db) (ctx : Ctx) : List LogRecord :=
  snapshotCollections db.toStore ctx.nowMs ++ snapshotChannels db.toStore ++
    snapshotHooks db.toStore

def entryBytes (entries : List StorageEntry) : Nat :=
  (entries.map fun entry => 8 + entry.command.length).sum

def firstSequence (currentLast count : Nat) : Nat :=
  if count = 0 then 0 else if count ≤ currentLast then currentLast - count + 1 else 1

def installSnapshot (db : Db) (currentLast : Nat) (entries : List StorageEntry) :
    Except CoreError Unit × Db :=
  match db.storage.snapshot entries with
  | (.error e, storage) => (.error (.storage e), { db with storage })
  | (.ok (), storage) =>
    (.ok (), { db with
      storage
      nextSequence := if entries.length = 0 then currentLast
        else firstSequence currentLast entries.length + entries.length - 1 })

def encodeSnapshot (ctx : Ctx) (currentLast : Nat) (records : List LogRecord) :
    Except CoreError (List StorageEntry) :=
  encodeEntriesForSequences lib ctx.nowNs records
    (range' (firstSequence currentLast records.length) records.length)

def rewriteLogSnapshot (db : Db) (ctx : Ctx) (records : List LogRecord) :
    Except CoreError CompactionResult × Db :=
  if !db.storage.storesCommandLog then
    (.ok { beforeEntries := 0, afterEntries := 0, beforeBytes := 0, afterBytes := 0 }, db)
  else
    match db.storage.read fun entries => .ok (lastSequence entries) with
    | (.error e, storage) => (.error (.storage e), { db with storage })
    | (.ok currentLast, storage) =>
      let db := { db with storage }
      match db.storage.read fun entries => .ok (entries.filter fun entry => 0 < entry.sequence) with
      | (.error e, storage) => (.error (.storage e), { db with storage })
      | (.ok before, storage) =>
        let db := { db with storage }
        match encodeSnapshot lib ctx currentLast records with
        | .error e => (.error e, db)
        | .ok entries =>
          let (result, db) := db.installSnapshot currentLast entries
          (result.map fun _ =>
            { beforeEntries := before.length, afterEntries := entries.length
              beforeBytes := entryBytes before, afterBytes := entryBytes entries }, db)

def aofshrink (db : Db) (ctx : Ctx) : Except CoreError CompactionResult × Db :=
  db.rewriteLogSnapshot lib ctx (db.snapshotBaseLogRecords ctx)

/-! ### Replication -/

def resetReplicationState (db : Db) : Except CoreError Unit × Db :=
  let db := { db with toStore := db.clear }
  match db.storage.snapshot [] with
  | (.error e, storage) => (.error (.storage e), { db with storage })
  | (.ok (), storage) => (.ok (), { db with storage, nextSequence := 0 })

def applyReplicatedEntries (db : Db) (ctx : Ctx) (entries : List StorageEntry) :
    Except CoreError Nat × Db :=
  match entries.head? with
  | none => (.ok db.nextSequence, db)
  | some first =>
    let expected := db.nextSequence + 1
    if first.sequence ≠ expected then
      (.error (.storage (.sequenceRegression expected first.sequence)), db)
    else
      match db.storage.appendBatch entries with
      | (.error e, storage) => (.error (.storage e), { db with storage })
      | (.ok (), storage) =>
        match applyPersistedEntries lib ctx.nowMs db.toStore entries with
        | (.error e, store) => (.error e, { db with toStore := store, storage })
        | (.ok (), store) =>
          let last := lastSequence entries
          (.ok last,
            { db with toStore := store.gcCollections ctx.nowMs, storage, nextSequence := last })

def storageEntriesAfter (db : Db) (afterSeq maxEntries : Nat) :
    Except CoreError (List StorageEntry) × Db :=
  let (result, storage) := db.storage.read fun entries =>
    .ok ((entries.filter fun entry => afterSeq < entry.sequence).take (max maxEntries 1))
  (result.mapError .storage, { db with storage })

def checksumRange (md5 : List UInt8 → List UInt8) (db : Db) (first last : Nat) :
    Except CoreError (List UInt8) × Db :=
  let (result, storage) := db.storage.read fun entries =>
    .ok (StorageEntry.checksum md5
      (entries.filter fun entry => first ≤ entry.sequence ∧ entry.sequence ≤ last))
  (result.mapError .storage, { db with storage })

end Db

/-! ### All public calls -/

inductive Call where
  | request (request : Request)
  | pdel (collection pattern : String)
  | expireDue (nowMs max : Nat)
  | gc
  | flushdb
  | aofshrink
  | appendLogRecords (records : List LogRecord)
  | rewriteLogSnapshot (records : List LogRecord)
  | resetReplicationState
  | applyReplicatedEntries (entries : List StorageEntry)
  | setConfig (config : Config)
  | closeStorage
  | readLog
  | query

def Db.call (db : Db) (ctx : Ctx) : Call → Except CoreError Unit × Db
  | .request request =>
    let (r, db) := db.perform lib ctx request
    (r.map fun _ => (), db)
  | .pdel collection pattern =>
    let (r, db) := db.pdel lib ctx collection pattern
    (r.map fun _ => (), db)
  | .expireDue nowMs max =>
    let (r, db) := db.expireDue lib ctx nowMs max
    (r.map fun _ => (), db)
  | .gc => (.ok (), db.gc ctx)
  | .flushdb => db.flushdb lib ctx
  | .aofshrink =>
    let (r, db) := db.aofshrink lib ctx
    (r.map fun _ => (), db)
  | .appendLogRecords records =>
    let (r, db) := db.appendLogRecords lib ctx records
    (r.map fun _ => (), db)
  | .rewriteLogSnapshot records =>
    let (r, db) := db.rewriteLogSnapshot lib ctx records
    (r.map fun _ => (), db)
  | .resetReplicationState => db.resetReplicationState
  | .applyReplicatedEntries entries =>
    let (r, db) := db.applyReplicatedEntries lib ctx entries
    (r.map fun _ => (), db)
  | .setConfig config => (.ok (), { db with config })
  | .closeStorage => (.ok (), { db with storage := { db.storage with closed := true } })
  | .readLog => (.ok (), { db with storage := db.storage.fault.2 })
  | .query => (.ok (), db)

def Db.run (db : Db) : List (Ctx × Call) → Db
  | [] => db
  | (ctx, call) :: calls => (db.call lib ctx call).2.run calls

/-! ### Walks of deletes -/

def Ends {α : Type} (P Q : Db → Prop) : Except CoreError α × Db → Prop
  | (.ok _, db) => P db
  | (.error _, db) => Q db

variable {P : Db → Prop}

theorem Ends.of_ok {α : Type} {Q : Db → Prop} {r : Except CoreError α × Db} {a : α}
    (h : Ends P Q r) (hok : r.1 = .ok a) : P r.2 := by
  obtain ⟨_ | _, db⟩ := r
  · cases hok
  · exact h

theorem Ends.same {α : Type} {r : Except CoreError α × Db} (h : Ends P P r) :
    P r.2 := by
  obtain ⟨_ | _, db⟩ := r <;> exact h

theorem Ends.of_snd {α : Type} {r : Except CoreError α × Db} (h : P r.2) :
    Ends P P r := by
  obtain ⟨_ | _, db⟩ := r <;> exact h

section Walk

variable {lib} {P Q : Db → Prop} {db : Db} {ctx : Ctx}

theorem Db.delEach_ends {collection : String}
    (hdel : ∀ db id, P db → Ends P Q (db.finish lib ctx (db.delExclusive lib ctx collection id)))
    (h : P db) (ids : List String) (removed : Nat) :
    Ends P Q (db.delEach lib ctx collection ids removed) := by
  induction ids generalizing db removed with
  | nil => exact h
  | cons id ids ih =>
    have hfirst := hdel db id h
    rw [delEach]
    rcases hf : db.finish lib ctx (db.delExclusive lib ctx collection id) with ⟨_ | answer, db'⟩
    · rw [hf] at hfirst
      exact hfirst
    · rw [hf] at hfirst
      exact ih hfirst _

theorem Db.pdel_ends {collection : String}
    (hdel : ∀ db id, P db → Ends P Q (db.finish lib ctx (db.delExclusive lib ctx collection id)))
    (hfail : ∀ db, P db → Q db) (h : P db) (pattern : String) :
    Ends P Q (db.pdel lib ctx collection pattern) := by
  rw [pdel]
  split
  · exact hfail db h
  · exact delEach_ends hdel h _ 0

variable (hdel : ∀ db collection id, P db →
    Ends P Q (db.finish lib ctx (db.delExclusive lib ctx collection id)))
include hdel

theorem Db.expireCollections_ends (h : P db) (nowMs max : Nat) (names : List String)
    (expired : Nat) : Ends P Q (db.expireCollections lib ctx nowMs max names expired) := by
  induction names generalizing db expired with
  | nil => exact h
  | cons name names ih =>
    rw [expireCollections]
    split
    · exact h
    · have hwalk := delEach_ends (fun db => hdel db name) h (db.dueIn name nowMs (max - expired))
        expired
      rcases hd : db.delEach lib ctx name (db.dueIn name nowMs (max - expired)) expired with
        ⟨_ | n, db'⟩
      · rw [hd] at hwalk
        exact hwalk
      · rw [hd] at hwalk
        exact ih hwalk n

theorem Db.expireDue_ends
    (hcount : ∀ db total, P db → P { db with expiredObjectsTotal := total }) (h : P db)
    (nowMs max : Nat) : Ends P Q (db.expireDue lib ctx nowMs max) := by
  rw [expireDue]
  split
  · exact h
  · have hwalk := expireCollections_ends hdel h nowMs max (ctx.order db.collections.keys) 0
    rcases hd : db.expireCollections lib ctx nowMs max (ctx.order db.collections.keys) 0 with
      ⟨_ | total, db'⟩
    · rw [hd] at hwalk
      exact hwalk
    · rw [hd] at hwalk
      exact hcount db' _ hwalk

end Walk

/-! ### Calls that cut the log or add to it -/

namespace Db

theorem flushdb_steps (db : Db) (ctx : Ctx) :
    (∃ e, (db.flushdb lib ctx).1 = .error e ∧ db.Unlogged (db.flushdb lib ctx).2) ∨
    ∃ db', db.Persisted lib ctx (.records [.command .flushDb]) db' ∧ db'.toStore = db.toStore ∧
      db.flushdb lib ctx = ((db'.storage.snapshot []).1.mapError .storage,
        { db' with toStore := db'.clear, storage := (db'.storage.snapshot []).2 }) := by
  rw [flushdb]
  split
  · exact .inl ⟨_, rfl, rfl, rfl, LogStore.SameLog.refl _, le_rfl⟩
  have hcases := db.persist_cases lib ctx (.records [.command .flushDb])
  rw [persist] at hcases
  rcases hp : db.appendLogRecords lib ctx [.command .flushDb] with ⟨e | n, db'⟩ <;>
    rw [hp] at hcases <;>
    rcases hcases with ⟨_, he, hun⟩ | ⟨hno, hok, hun⟩ | ⟨hs, hok, entries, hlogged, hencode⟩
  · exact .inl ⟨e, rfl, hun⟩
  · cases hok
  · cases hok
  · cases he
  · exact .inr ⟨db', .inl ⟨hno, hun⟩, hun.store, rfl⟩
  · exact .inr ⟨db', .inr ⟨hs, entries, hlogged, hencode⟩, hlogged.store, rfl⟩

def appliedBatch (db : Db) (ctx : Ctx) (storage : LogStore) (entries : List StorageEntry) :
    Except CoreError Nat × Db :=
  match applyPersistedEntries lib ctx.nowMs db.toStore entries with
  | (.error e, store) => (.error e, { db with toStore := store, storage })
  | (.ok (), store) => (.ok (lastSequence entries),
      { db with
        toStore := store.gcCollections ctx.nowMs, storage, nextSequence := lastSequence entries })

theorem storage_appliedBatch (db : Db) (ctx : Ctx) (storage : LogStore)
    (entries : List StorageEntry) : (db.appliedBatch lib ctx storage entries).2.storage = storage := by
  rw [appliedBatch]
  split <;> rfl

theorem applyReplicatedEntries_cases (db : Db) (ctx : Ctx) (entries : List StorageEntry) :
    let accepts := (∃ first, entries.head? = some first ∧ first.sequence = db.nextSequence + 1) ∧
      (db.storage.appendBatch entries).1 = .ok ()
    (entries = [] ∧ db.applyReplicatedEntries lib ctx entries = (.ok db.nextSequence, db)) ∨
    (¬ accepts ∧ ∃ e storage, storage = { db.storage with faults := storage.faults } ∧
      (db.storage.faults = [] → storage.faults = []) ∧
      db.applyReplicatedEntries lib ctx entries = (.error e, { db with storage })) ∨
    (accepts ∧ entries ≠ [] ∧ ∃ storage, storage.entries = db.storage.entries ++ entries ∧
      storage.storesCommandLog = db.storage.storesCommandLog ∧
      (Increasing entries ∧ After db.storage.entries.getLast? entries) ∧
      db.applyReplicatedEntries lib ctx entries = db.appliedBatch lib ctx storage entries) := by
  intro accepts
  cases entries with
  | nil => exact .inl ⟨rfl, rfl⟩
  | cons first rest =>
    rw [applyReplicatedEntries, head?_cons]
    dsimp only
    by_cases hfirst : first.sequence = db.nextSequence + 1
    · rw [if_neg (not_not.2 hfirst)]
      rcases hs : db.storage.appendBatch (first :: rest) with ⟨e | ⟨⟩, storage⟩
      · have hrefused : ¬ accepts := by
          rintro ⟨-, hok⟩
          rw [hs] at hok
          cases hok
        exact .inr (.inl ⟨hrefused, _, storage, LogStore.appendBatch_error hs,
          fun hnone => LogStore.faults_of_appendBatch hnone hs, rfl⟩)
      · have hcases := db.storage.appendBatch_cases (first :: rest)
        rw [hs] at hcases
        rcases hcases with ⟨e, he, -⟩ | ⟨-, hlog, hstores, hfits⟩
        · cases he
        · exact .inr (.inr ⟨⟨⟨first, rfl, hfirst⟩, by rw [hs]⟩, cons_ne_nil _ _, storage, hlog,
            hstores, hfits, rfl⟩)
    · rw [if_pos hfirst]
      have hrefused : ¬ accepts := by
        rintro ⟨⟨f, hf, hseq⟩, -⟩
        cases hf
        exact hfirst hseq
      exact .inr (.inl ⟨hrefused, _, db.storage, rfl, id, rfl⟩)

end Db

end LatLng.Core
