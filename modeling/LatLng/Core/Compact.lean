import LatLng.Core.Admin
import LatLng.Core.Written

/-! Rewriting the log with a snapshot of the live state. -/

namespace LatLng.Core

open Geo Geofence Storage Std ExtTreeMap List View

variable {lib : Lib}

structure Db.Rewritten (lib : Lib) (db : Db) (ctx : Ctx) (records : List LogRecord)
    (db' : Db) : Prop where
  store : db'.toStore = db.toStore
  config : db'.config = db.config
  stores : db'.storage.storesCommandLog = db.storage.storesCommandLog
  increasing : Increasing db'.storage.entries
  encoded : Db.encodeSnapshot lib ctx (lastSequence db.storage.entries) records =
    .ok db'.storage.entries
  sequence : db'.nextSequence =
    if db'.storage.entries.length = 0 then lastSequence db.storage.entries
    else Db.firstSequence (lastSequence db.storage.entries) db'.storage.entries.length +
      db'.storage.entries.length - 1

variable {db db' : Db} {ctx : Ctx} {records : List LogRecord}

theorem Db.Rewritten.lastSequence_le (h : db.Rewritten lib ctx records db') :
    lastSequence db.storage.entries ≤ db'.nextSequence := by
  rw [h.sequence]
  split
  · exact le_rfl
  next hne =>
    rw [firstSequence, if_neg hne]
    split <;> omega

theorem Db.encodeSnapshot_positive {currentLast : Nat} {entries : List StorageEntry}
    (h : Db.encodeSnapshot lib ctx currentLast records = .ok entries) :
    ∀ entry ∈ entries, 0 < entry.sequence := by
  intro entry he
  have hmem := mem_map_of_mem (f := StorageEntry.sequence) he
  rw [sequence_encodeEntries length_range' h] at hmem
  have hcount := length_pos_of_mem hmem
  rw [length_range'] at hcount
  have hle := (mem_range'_1.1 hmem).1
  rw [Db.firstSequence, if_neg (by omega)] at hle
  split at hle <;> omega

theorem Db.Rewritten.positive
    (h : db.Rewritten lib ctx records db') : ∀ entry ∈ db'.storage.entries, 0 < entry.sequence :=
  Db.encodeSnapshot_positive h.encoded

theorem Db.Rewritten.holds (h : db.Rewritten lib ctx records db')
    (hread : ∀ record ∈ records, record.Readable lib) : Holds lib db'.storage.entries records :=
  holds_encodeEntries length_range' h.encoded hread

theorem Db.installSnapshot_cases (db : Db) (currentLast : Nat) (entries : List StorageEntry) :
    (∃ e, (db.installSnapshot currentLast entries).1 = .error e ∧
      db.Unlogged (db.installSnapshot currentLast entries).2) ∨
    ((db.installSnapshot currentLast entries).1 = .ok () ∧ Increasing entries ∧
      ∃ storage, storage.entries = entries ∧
        storage.storesCommandLog = db.storage.storesCommandLog ∧
        (db.installSnapshot currentLast entries).2 = { db with
          storage
          nextSequence := if entries.length = 0 then currentLast
            else firstSequence currentLast entries.length + entries.length - 1 }) := by
  rw [installSnapshot]
  rcases db.storage.snapshot_cases entries with ⟨e, he, hsame⟩ | ⟨hok, hlog, hstores, hinc⟩
  · rcases hs : db.storage.snapshot entries with ⟨r, storage⟩
    rw [hs] at he hsame
    subst he
    exact .inl ⟨_, rfl, rfl, rfl, hsame, le_rfl⟩
  · rcases hs : db.storage.snapshot entries with ⟨r, storage⟩
    rw [hs] at hok hlog hstores
    subst hok
    exact .inr ⟨rfl, hinc, storage, hlog, hstores, rfl⟩

variable (lib) in
theorem Db.rewriteLogSnapshot_cases (db : Db) (ctx : Ctx) (records : List LogRecord) :
    (db.Unlogged (db.rewriteLogSnapshot lib ctx records).2 ∧
      ((db.rewriteLogSnapshot lib ctx records).1.isOk →
        db.storage.storesCommandLog = false)) ∨
    ((db.rewriteLogSnapshot lib ctx records).1.isOk ∧
      db.Rewritten lib ctx records (db.rewriteLogSnapshot lib ctx records).2) := by
  have hquiet : ∀ {storage : LogStore}, db.storage.SameLog storage →
      db.Unlogged { db with storage } := fun hsame => ⟨rfl, rfl, hsame, le_rfl⟩
  rw [rewriteLogSnapshot]
  cases hstores : db.storage.storesCommandLog with
  | false => exact .inl ⟨hquiet (LogStore.SameLog.refl _), fun _ => rfl⟩
  | true =>
    simp only [Bool.not_true, Bool.false_eq_true, if_false]
    split
    next e storage hread =>
      exact .inl ⟨hquiet (LogStore.read_cases hread).1, nofun⟩
    next last storage hread =>
    obtain ⟨hsame, ⟨e, he⟩ | hlast⟩ := LogStore.read_cases hread
    · cases he
    cases hlast
    split
    next e storage' hread' =>
      exact .inl ⟨hquiet (hsame.trans (LogStore.read_cases hread').1), nofun⟩
    next before storage' hread' =>
    have hsame' := hsame.trans (LogStore.read_cases hread').1
    cases hencode : encodeSnapshot lib ctx (lastSequence db.storage.entries) records with
    | error e => exact .inl ⟨hquiet hsame', nofun⟩
    | ok entries =>
      dsimp only
      rcases Db.installSnapshot_cases { db with storage := storage' }
          (lastSequence db.storage.entries) entries with
        ⟨e, he, hun⟩ | ⟨hok, hinc, s, hlog, hs, hdb⟩
      · rcases hi : Db.installSnapshot { db with storage := storage' }
          (lastSequence db.storage.entries) entries with ⟨r, db'⟩
        rw [hi] at he hun
        dsimp only at he hun
        subst he
        exact .inl ⟨⟨hun.store, hun.config, hsame'.trans hun.log, hun.sequence⟩,
          nofun⟩
      · rcases hi : Db.installSnapshot { db with storage := storage' }
          (lastSequence db.storage.entries) entries with ⟨r, db'⟩
        rw [hi] at hok hdb
        dsimp only at hok hdb
        subst hok hdb hlog
        exact .inr ⟨rfl, rfl, rfl, hs.trans hsame'.stores, hinc, hencode, rfl⟩

theorem Db.toStore_appendLogRecords (db : Db) (ctx : Ctx) (records : List LogRecord) :
    (db.appendLogRecords lib ctx records).2.toStore = db.toStore := by
  have hcases := db.persist_cases lib ctx (.records records)
  rcases hcases with ⟨-, -, hun⟩ | ⟨-, -, hun⟩ | ⟨-, -, entries, hlogged, -⟩
  · exact hun.store
  · exact hun.store
  · exact hlogged.store

theorem Db.toStore_rewriteLogSnapshot (db : Db) (ctx : Ctx) (records : List LogRecord) :
    (db.rewriteLogSnapshot lib ctx records).2.toStore = db.toStore := by
  rcases db.rewriteLogSnapshot_cases lib ctx records with ⟨hun, -⟩ | ⟨-, hnew⟩
  · exact hun.store
  · exact hnew.store

theorem Db.faults_rewriteLogSnapshot {db : Db} (h : db.storage.faults = []) (ctx : Ctx)
    (records : List LogRecord) : (db.rewriteLogSnapshot lib ctx records).2.storage.faults = [] := by
  have hsnapshot : ∀ entries, (db.storage.snapshot entries).2.faults = [] := by
    intro entries
    rw [LogStore.snapshot, LogStore.fault_of_no_faults h]
    dsimp only
    split
    · exact h
    · split <;> exact h
  rw [rewriteLogSnapshot, LogStore.read_of_no_faults h]
  split
  · exact h
  dsimp only
  rw [LogStore.read_of_no_faults h]
  dsimp only
  split
  · exact h
  next entries hencode =>
    have hnew := hsnapshot entries
    rw [installSnapshot]
    rcases hs : db.storage.snapshot entries with ⟨_ | _, storage⟩ <;> rw [hs] at hnew <;> exact hnew

/-! ### What a snapshot holds -/

def Store.Indexed (lib : Lib) (s : Store) (now : Nat) : Prop :=
  ∀ c id object, s.view.get c id = some object → isExpired now object = false →
    object.geo.indexable lib.toGeoLib = true

variable {s : Store} {now : Nat}

theorem Store.Indexed.snapshot (h : s.Indexed lib now) :
    ∀ record ∈ Db.snapshotCollections s now, record.Replayable lib := by
  intro record hrecord
  obtain ⟨⟨name, cell⟩, hcell, hrecord⟩ := mem_flatMap.1 hrecord
  rcases mem_cons.1 hrecord with rfl | hrecord
  · intro geo hgeo
    cases hgeo
  · obtain ⟨⟨id, object⟩, hobject, rfl⟩ := mem_map.1 hrecord
    obtain ⟨hmem, hlive⟩ := mem_filter.1 hobject
    intro geo hgeo
    cases hgeo
    refine h name id object ?_ (by simpa using hlive)
    rw [View.get, Store.collections_view,
      mem_toList_iff_getElem?_eq_some.1 hcell]
    exact mem_toList_iff_getElem?_eq_some.1 hmem

theorem Store.indexed_of_snapshot
    (h : ∀ record ∈ Db.snapshotCollections s now, record.Replayable lib) : s.Indexed lib now := by
  intro c id object hget hlive
  rw [View.get, Store.collections_view] at hget
  cases hc : s.collections[c]? with
  | none =>
    rw [hc] at hget
    cases hget
  | some cell =>
    rw [hc] at hget
    have hobject : (id, object) ∈ cell.objects.toList.filter fun e => !isExpired now e.2 := by
      rw [mem_filter, hlive]
      exact ⟨mem_toList_iff_getElem?_eq_some.2 hget, rfl⟩
    have hrecord : Db.snapshotObject c (id, object) ∈ Db.snapshotCollections s now := by
      refine mem_flatMap.2 ⟨(c, cell), mem_toList_iff_getElem?_eq_some.2 hc, ?_⟩
      exact mem_cons_of_mem _ (mem_map_of_mem hobject)
    exact h _ hrecord object.geo rfl

theorem Db.snapshotBaseLogRecords_replayable (h : db.Indexed lib ctx.nowMs) :
    ∀ record ∈ db.snapshotBaseLogRecords ctx, record.Replayable lib := by
  intro record hrecord
  rcases mem_append.1 hrecord with hrecord | hrecord
  · rcases mem_append.1 hrecord with hrecord | hrecord
    · exact h.snapshot record hrecord
    · obtain ⟨⟨name, d⟩, -, rfl⟩ := mem_map.1 hrecord
      intro geo hgeo
      cases hgeo
  · obtain ⟨⟨name, endpoint, d⟩, -, rfl⟩ := mem_map.1 hrecord
    intro geo hgeo
    cases hgeo

/-! ### What replaying a snapshot shows -/

def Objects.live (now : Nat) (objects : Objects) : Objects :=
  objects.filter fun _ object => !isExpired now object

def View.live (now : Nat) (v : View) : View :=
  { v with collections := v.collections.map fun _ objects => Objects.live now objects }

variable {v : View}

theorem View.get_live {c id : String} {object : Object} :
    (v.live now).get c id = some object ↔
      v.get c id = some object ∧ isExpired now object = false := by
  rw [View.get, View.get, View.live, ExtTreeMap.getElem?_map]
  cases v.collections[c]? with
  | none => simp
  | some objects => simp [Objects.live]

theorem View.live_ext {v' : View}
    (hnames : ∀ c : String, v.collections[c]?.isSome = v'.collections[c]?.isSome)
    (hobjects : ∀ c id object, isExpired now object = false →
      (v.get c id = some object ↔ v'.get c id = some object))
    (hchannels : v.channels = v'.channels) (hhooks : v.hooks = v'.hooks) :
    v.live now = v'.live now := by
  have hcollections : (v.live now).collections = (v'.live now).collections := by
    apply ExtTreeMap.ext_getElem?
    intro c
    have hname := hnames c
    have hobject := hobjects c
    rw [View.live, View.live, ExtTreeMap.getElem?_map, ExtTreeMap.getElem?_map]
    simp only [View.get] at hobject
    cases hc : v.collections[c]? with
    | none =>
      rw [hc] at hname
      have hc' : v'.collections[c]? = none :=
        Option.not_isSome_iff_eq_none.1 (by rw [← hname]; exact Bool.false_ne_true)
      rw [hc']
    | some objects =>
      rw [hc] at hname hobject
      obtain ⟨objects', hc'⟩ := Option.isSome_iff_exists.1 hname.symm
      rw [hc'] at hobject ⊢
      rw [Option.map_some, Option.map_some]
      congr 1
      apply ExtTreeMap.ext_getElem?
      intro id
      apply Option.ext
      intro object
      rw [Objects.live, Objects.live, Lib.getElem?_filter_eq_some, Lib.getElem?_filter_eq_some]
      exact and_congr_left fun hlive => hobject id object (by simpa using hlive)
  have hlive : ∀ u : View, u.live now =
      { collections := (u.live now).collections, channels := u.channels, hooks := u.hooks } :=
    fun _ => rfl
  rw [hlive v, hlive v', hcollections, hchannels, hhooks]

theorem View.live_live {later : Nat} (hle : now ≤ later) (v : View) :
    (v.live now).live later = v.live later := by
  refine live_ext (fun c => ?_) (fun c id object hlive => ?_) rfl rfl
  · rw [live, ExtTreeMap.getElem?_map, Option.isSome_map]
  · rw [get_live, and_iff_left_iff_imp]
    intro _
    cases hexp : isExpired now object with
    | false => rfl
    | true =>
      rw [isExpired_mono hle hexp] at hlive
      cases hlive

theorem Trimmed.live_eq {full kept : View} (h : Trimmed now full kept) :
    kept.live now = full.live now := by
  refine live_ext h.names (fun c id object hlive => ?_) h.channels h.hooks
  rcases h.objects c id with heq | ⟨hnone, other, hfull, hexp⟩
  · rw [heq]
  · rw [hnone, hfull]
    refine iff_of_false nofun fun h => ?_
    cases h
    rw [hexp] at hlive
    cases hlive

theorem toObject_snapshotObject {id : String} {object : Object} (h : object.id = id)
    (collection : String) :
    ({ collection, id, object := object.geo, fields := fieldMapToEntries object.fields
       expiresAtMs := object.expiresAt } : PersistedSetRecord).toObject = object := by
  rw [PersistedSetRecord.toObject, fieldEntriesToMap_fieldMapToEntries, ← h]

theorem foldl_snapshotCell {cell : VersionedCollection} (hkeyed : cell.collection.Keyed)
    (now : Nat) {name : String} (hnew : v.collections[name]? = none) :
    (LogRecord.command (.createCollection name) ::
      (cell.objects.toList.filter fun object => !isExpired now object.2).map
        (Db.snapshotObject name)).foldl (applyRecord lib 0) v =
      { v with collections := v.collections.insert name (Objects.live now cell.objects) } := by
  rw [foldl_cons, foldl_map]
  have hcreate : v.applyRecord lib 0 (.command (.createCollection name)) =
      { v with collections := v.collections.insert name ∅ } := by
    simp only [applyRecord, apply, hnew, Option.getD_none]
  have hstep : ∀ e ∈ cell.objects.toList.filter (fun object => !isExpired now object.2),
      ∀ objects : Objects,
      applyRecord lib 0 { v with collections := v.collections.insert name objects }
        (Db.snapshotObject name e) =
      { v with collections := v.collections.insert name (objects.insert e.1 e.2) } := by
    rintro ⟨id, object⟩ he objects
    have hid : object.id = id := hkeyed.ids id object
      (mem_toList_iff_getElem?_eq_some.1 (mem_filter.1 he).1)
    simp only [applyRecord, Db.snapshotObject, apply, toObject_snapshotObject hid,
      upsert, getElem?_insert_self, Option.getD_some, Lib.insert_insert, hid]
  have hlive : (cell.objects.toList.filter fun object => !isExpired now object.2).foldl
      (fun m e => m.insert e.1 e.2) ∅ = Objects.live now cell.objects := by
    refine Lib.foldl_insert_eq (distinct_keys_toList.filter _) fun id object => ?_
    rw [mem_filter, mem_toList_iff_getElem?_eq_some, Objects.live,
      Lib.getElem?_filter_eq_some]
  rw [hcreate, Lib.foldl_hom_mem (fun objects : Objects =>
    ({ v with collections := v.collections.insert name objects } : View)) hstep, hlive]

theorem foldl_snapshotCells (now : Nat) {cells : List (String × VersionedCollection)} {v : View}
    (hkeyed : ∀ e ∈ cells, e.2.collection.Keyed)
    (hnames : cells.Pairwise fun a b => ¬ compare a.1 b.1 = .eq)
    (hnew : ∀ e ∈ cells, v.collections[e.1]? = none) :
    (cells.flatMap fun (name, cell) => LogRecord.command (.createCollection name) ::
      (cell.objects.toList.filter fun object => !isExpired now object.2).map
        (Db.snapshotObject name)).foldl (applyRecord lib 0) v =
      { v with
        collections := cells.foldl (fun m e => m.insert e.1 (Objects.live now e.2.objects))
          v.collections } := by
  induction cells generalizing v with
  | nil => rfl
  | cons e cells ih =>
    rw [flatMap_cons, foldl_append,
      foldl_snapshotCell (hkeyed _ mem_cons_self) now (hnew _ mem_cons_self)]
    refine ih (fun e he => hkeyed e (mem_cons_of_mem _ he)) hnames.of_cons fun e he => ?_
    rw [ExtTreeMap.getElem?_insert, if_neg (rel_of_pairwise_cons hnames he)]
    exact hnew e (mem_cons_of_mem _ he)

theorem Store.Keyed.snapshotCollections (h : s.Keyed) (now : Nat) :
    (Db.snapshotCollections s now).foldl (applyRecord lib 0) {} =
      { collections := (s.view.live now).collections } := by
  have hcells := @foldl_snapshotCells lib now s.collections.toList {}
    (fun e he => h e.1 e.2 (mem_toList_iff_getElem?_eq_some.1 he))
    distinct_keys_toList (fun _ _ => by simp)
  have hfold : s.collections.toList.foldl
      (fun m e => m.insert e.1 (Objects.live now e.2.objects)) ∅ =
      (s.view.live now).collections := by
    have := @Lib.foldl_insert_eq String Objects compare _ _
      (s.collections.toList.map fun e => (e.1, Objects.live now e.2.objects))
      (s.view.live now).collections _
      (pairwise_map.2 distinct_keys_toList) ?_
    · rwa [foldl_map] at this
    · simp [live, Store.view, mem_toList_iff_getElem?_eq_some]
  rw [Db.snapshotCollections, hcells, hfold]

structure View.Evaluable (v : View) : Prop where
  channels : ∀ (name : String) (e : Unit × GeofenceDef), v.channels[name]? = some e →
    ensureGeofenceEvaluable e.2 = .ok ()
  hooks : ∀ (name : String) (e : String × GeofenceDef), v.hooks[name]? = some e →
    ensureGeofenceEvaluable e.2 = .ok ()

theorem mem_fences_iff {ε : Type} {t : FenceTable ε} {name : String} {e : ε × GeofenceDef} :
    (name, e) ∈ t.fences.toList.map (fun c => (c.1, c.2.endpoint, c.2.def_)) ↔
      t.defs[name]? = some e := by
  simp [FenceTable.defs, mem_toList_iff_getElem?_eq_some]

theorem foldl_insert_fences {ε : Type} (t : FenceTable ε) :
    t.fences.toList.foldl (fun m c => m.insert c.1 (c.2.endpoint, c.2.def_)) ∅ = t.defs := by
  have := @Lib.foldl_insert_eq String (ε × GeofenceDef) compare _ _
    (t.fences.toList.map fun c => (c.1, c.2.endpoint, c.2.def_)) t.defs _
    (pairwise_map.2 distinct_keys_toList) fun _ _ => mem_fences_iff
  rwa [foldl_map] at this

theorem foldl_fences {ε : Type} (t : FenceTable ε) {record : String × Stored ε → LogRecord}
    (put : ExtTreeMap String (ε × GeofenceDef) → View)
    (hstep : ∀ c ∈ t.fences.toList, ∀ m, applyRecord lib 0 (put m) (record c) =
      put (m.insert c.1 (c.2.endpoint, c.2.def_))) :
    (t.fences.toList.map record).foldl (applyRecord lib 0) (put ∅) = put t.defs := by
  rw [foldl_map, ← foldl_insert_fences t]
  exact Lib.foldl_hom_mem put hstep ∅

theorem foldl_snapshotChannels (h : s.view.Evaluable) (collections : ExtTreeMap String Objects) :
    (Db.snapshotChannels s).foldl (applyRecord lib 0) { collections } =
      { collections, channels := s.view.channels } := by
  rw [Db.snapshotChannels, Registry.channelDefs, List.map_map]
  refine foldl_fences s.geofences.channels (fun channels => { collections, channels })
    fun c hc channels => ?_
  have hok := h.channels c.1 _ (mem_fences_iff.1 (mem_map_of_mem hc))
  simp [applyRecord, apply, hok, Except.isOk, Except.toBool]

theorem foldl_snapshotHooks (h : s.view.Evaluable) (collections : ExtTreeMap String Objects)
    (channels : ExtTreeMap String (Unit × GeofenceDef)) :
    (Db.snapshotHooks s).foldl (applyRecord lib 0) { collections, channels } =
      { collections, channels, hooks := s.view.hooks } := by
  rw [Db.snapshotHooks, Registry.hookDefs, List.map_map]
  refine foldl_fences s.geofences.hooks (fun hooks => { collections, channels, hooks })
    fun c hc hooks => ?_
  have hok := h.hooks c.1 _ (mem_fences_iff.1 (mem_map_of_mem hc))
  simp [applyRecord, apply, hok, Except.isOk, Except.toBool]

theorem Db.snapshotBaseLogRecords_view (hkeyed : db.Keyed) (hev : db.view.Evaluable) (ctx : Ctx) :
    (db.snapshotBaseLogRecords ctx).foldl (applyRecord lib 0) {} =
      db.view.live ctx.nowMs := by
  rw [Db.snapshotBaseLogRecords, foldl_append, foldl_append,
    hkeyed.snapshotCollections, foldl_snapshotChannels hev, foldl_snapshotHooks hev]
  rfl

theorem Db.mem_snapshotBaseLogRecords {record : LogRecord}
    (h : record ∈ db.snapshotBaseLogRecords ctx) :
    record.relative = false ∧ ∃ c, record = .command c := by
  rcases mem_append.1 h with h | h
  · rcases mem_append.1 h with h | h
    · obtain ⟨e, -, h⟩ := mem_flatMap.1 h
      rcases mem_cons.1 h with rfl | h
      · exact ⟨rfl, _, rfl⟩
      · obtain ⟨object, -, rfl⟩ := mem_map.1 h
        exact ⟨rfl, _, rfl⟩
    · obtain ⟨e, -, rfl⟩ := mem_map.1 h
      exact ⟨rfl, _, rfl⟩
  · obtain ⟨e, -, rfl⟩ := mem_map.1 h
    exact ⟨rfl, _, rfl⟩

theorem Db.snapshotBaseLogRecords_absolute :
    ∀ record ∈ db.snapshotBaseLogRecords ctx, record.relative = false :=
  fun _ h => (Db.mem_snapshotBaseLogRecords h).1

/-! ### Definitions in a replayed log -/

theorem View.Evaluable.applyRecord (h : v.Evaluable) (now : Nat) (record : LogRecord) :
    (v.applyRecord lib now record).Evaluable := by
  have hevaluable : ∀ {d : GeofenceDef}, (ensureGeofenceEvaluable d).isOk = true →
      ensureGeofenceEvaluable d = .ok () := by
    intro d hok
    cases hd : ensureGeofenceEvaluable d with
    | error e =>
      rw [hd] at hok
      cases hok
    | ok u => rfl
  cases record with
  | command c =>
    cases c with
    | setChannel name d =>
      rw [View.applyRecord, View.apply]
      split
      next hok => exact ⟨Lib.Every.insert h.channels name (hevaluable hok), h.hooks⟩
      · exact h
    | setHook name endpoint d =>
      rw [View.applyRecord, View.apply]
      split
      next hok => exact ⟨h.channels, Lib.Every.insert h.hooks name (hevaluable hok)⟩
      · exact h
    | delChannel name => exact ⟨Lib.Every.erase h.channels name, h.hooks⟩
    | delHook name => exact ⟨h.channels, Lib.Every.erase h.hooks name⟩
    | pdelChannel pattern =>
      exact ⟨fun other e he => h.channels other e (Lib.getElem?_filter_eq_some.1 he).1, h.hooks⟩
    | pdelHook pattern =>
      exact ⟨h.channels, fun other e he => h.hooks other e (Lib.getElem?_filter_eq_some.1 he).1⟩
    | flushDb => exact ⟨fun _ _ he => by simp [View.applyRecord, View.apply] at he,
        fun _ _ he => by simp [View.applyRecord, View.apply] at he⟩
    | rename collection newName =>
      rw [View.applyRecord, View.apply, View.rename]
      split
      · exact h
      · exact ⟨h.channels, h.hooks⟩
    | _ => exact ⟨h.channels, h.hooks⟩
  | _ => exact h

theorem View.evaluable_empty : ({} : View).Evaluable :=
  ⟨fun _ _ he => by simp at he, fun _ _ he => by simp at he⟩

theorem logView_evaluable (entries : List StorageEntry) : (logView lib entries).Evaluable := by
  have hempty := evaluable_empty
  rw [logView]
  generalize ({} : View) = v at hempty
  induction entries generalizing v with
  | nil => exact hempty
  | cons entry entries ih =>
    refine ih _ ?_
    rw [applyEntry]
    split
    · exact hempty.applyRecord 0 _
    · exact hempty

end LatLng.Core
