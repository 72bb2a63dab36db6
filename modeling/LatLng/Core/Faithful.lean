import LatLng.Core.Compact

/-! Databases whose log says what their state is. Successful writes, refused appends,
compactions and flushes keep it so. -/

namespace LatLng.Core

open Geo Geofence Storage Std List View

variable {lib : Lib}

variable (lib) in
structure Faithful (db : Db) : Prop where
  keyed : db.Keyed
  written : ∀ entry ∈ db.storage.entries, Written lib entry
  positive : ∀ entry ∈ db.storage.entries, 0 < entry.sequence
  increasing : Increasing db.storage.entries
  shows : logView lib db.storage.entries = db.view

def Indexable (lib : Lib) (v : View) : Prop :=
  ∀ c id object, v.get c id = some object → object.geo.indexable lib.toGeoLib = true

def Fresh (now : Nat) (v : View) : Prop :=
  ∀ c id object, v.get c id = some object → isExpired now object = false

variable {now : Nat} {v : View}

theorem Fresh.live_eq (h : Fresh now v) : v.live now = v := by
  have hcollections : (v.collections.map fun _ objects => Objects.live now objects) =
      v.collections := by
    apply ExtTreeMap.ext_getElem?
    intro c
    rw [ExtTreeMap.getElem?_map]
    cases hc : v.collections[c]? with
    | none => rfl
    | some objects =>
      rw [Option.map_some]
      congr 1
      apply ExtTreeMap.ext_getElem?
      intro id
      cases hid : objects[id]? with
      | none =>
        rw [← Option.not_isSome_iff_eq_none, Option.isSome_iff_exists]
        rintro ⟨object, ho⟩
        rw [Objects.live, Lib.getElem?_filter_eq_some, hid] at ho
        cases ho.1
      | some object =>
        rw [Objects.live, Lib.getElem?_filter_eq_some]
        refine ⟨hid, ?_⟩
        have := h c id object (by rw [View.get, hc]; exact hid)
        rw [this]
        rfl
  rw [live, hcollections]

theorem Fresh.zero (h : Fresh now v) : Fresh 0 v := by
  intro c id object hget
  cases hexp : isExpired 0 object with
  | false => rfl
  | true => exact (isExpired_mono (Nat.zero_le now) hexp).symm.trans (h c id object hget)

theorem fresh_empty (now : Nat) : Fresh now {} := by
  intro c id object hget
  simp [View.get] at hget

theorem Fresh.upsert (h : Fresh now v) (c : String) {object : Object}
    (hobject : isExpired now object = false) : Fresh now (v.upsert c object) := by
  intro c' id stored hget
  rw [get_upsert] at hget
  split at hget
  · cases hget
    exact hobject
  · exact h c' id stored hget

/-! ### Geometries that a write stores -/

theorem Indexable.of_geo {v' : View} (h : Indexable lib v)
    (hgeo : ∀ c id object, v'.get c id = some object →
      (∃ c' id' object', v.get c' id' = some object' ∧ object'.geo = object.geo) ∨
        object.geo.indexable lib.toGeoLib = true) : Indexable lib v' := by
  intro c id object hget
  rcases hgeo c id object hget with ⟨c', id', object', hget', hsame⟩ | hidx
  · rw [← hsame]
    exact h c' id' object' hget'
  · exact hidx

theorem Indexable.modify (h : Indexable lib v) (c id : String) {f : Object → Object}
    (hf : ∀ o, v.get c id = some o →
      (f o).geo = o.geo ∨ (f o).geo.indexable lib.toGeoLib = true) :
    Indexable lib (v.update c (·.modify id f)) := by
  refine h.of_geo fun c' id' object hget => ?_
  rw [get_modify] at hget
  split at hget
  next hkey =>
    obtain ⟨rfl, rfl⟩ := hkey
    obtain ⟨o, ho, rfl⟩ := Option.map_eq_some_iff.1 hget
    rcases hf o ho with hsame | hidx
    · exact .inl ⟨c, id, o, ho, hsame.symm⟩
    · exact .inr hidx
  · exact .inl ⟨c', id', object, hget, rfl⟩

theorem Indexable.upsert (h : Indexable lib v) (c : String) {object : Object}
    (hidx : object.geo.indexable lib.toGeoLib) : Indexable lib (v.upsert c object) := by
  refine h.of_geo fun c' id' stored hget => ?_
  rw [get_upsert] at hget
  split at hget
  · cases hget
    exact .inr hidx
  · exact .inl ⟨c', id', stored, hget, rfl⟩

theorem Indexable.erase (h : Indexable lib v) (c id : String) :
    Indexable lib (v.update c (·.erase id)) := by
  refine h.of_geo fun c' id' stored hget => ?_
  rw [get_erase] at hget
  split at hget
  · cases hget
  · exact .inl ⟨c', id', stored, hget, rfl⟩

theorem Indexable.of_collections {v' : View} (h : Indexable lib v)
    (hcollections : ∀ (c : String) objects, v'.collections[c]? = some objects →
      objects = ∅ ∨ ∃ c' : String, v.collections[c']? = some objects) : Indexable lib v' := by
  refine h.of_geo fun c id object hget => ?_
  obtain ⟨objects, hc, hid⟩ := Option.bind_eq_some_iff.1 hget
  rcases hcollections c objects hc with rfl | ⟨c', hc'⟩
  · simp at hid
  · exact .inl ⟨c', id, object, by rw [View.get, hc']; exact hid, rfl⟩

theorem Intends.indexable_view {aim : Aim} {commands : List Command} {effect : Effect}
    (h : Intends lib v aim commands effect) (hidx : effect.indexable lib)
    (hv : Indexable lib v) : Indexable lib (commands.foldl (apply lib 0) v) := by
  have hsame : ∀ {c id : String} {f : Object → Object}, (∀ o, (f o).geo = o.geo) →
      Indexable lib (v.update c (·.modify id f)) :=
    fun hf => hv.modify _ _ fun o _ => .inl (hf o)
  cases h with
  | set record haim => exact hv.upsert _ hidx
  | del hsome => exact hv.erase _ _
  | fset fields xx hsome => exact hsame fun _ => rfl
  | expireAt deadline hsome => exact hsame fun _ => rfl
  | persist hsome => exact hsame fun _ => rfl
  | jset hget hgeo hedit haim =>
    rw [apply_edit 0 rfl hget hgeo hedit]
    exact hv.modify _ _ fun _ _ => .inr hidx
  | jdel hget hgeo hedit haim =>
    rw [apply_edit 0 rfl hget hgeo (by rw [hedit]; rfl)]
    exact hv.modify _ _ fun _ _ => .inr hidx
  | createCollection c =>
    refine hv.of_collections fun c' objects hc => ?_
    simp only [foldl_cons, foldl_nil, apply, ExtTreeMap.getElem?_insert] at hc
    split at hc
    · cases hold : v.collections[c]? with
      | none =>
        rw [hold] at hc
        exact .inl (Option.some.inj hc).symm
      | some old =>
        rw [hold] at hc
        exact .inr ⟨c, hold.trans hc⟩
    · exact .inr ⟨c', hc⟩
  | dropCollection c =>
    refine hv.of_collections fun c' objects hc => ?_
    simp only [foldl_cons, foldl_nil, apply, ExtTreeMap.getElem?_erase] at hc
    split at hc
    · cases hc
    · exact .inr ⟨c', hc⟩
  | rename c newName =>
    refine hv.of_collections fun c' objects hc => ?_
    simp only [foldl_cons, foldl_nil, View.apply, View.rename] at hc
    split at hc
    · exact .inr ⟨c', hc⟩
    next moved hmoved =>
      simp only [ExtTreeMap.getElem?_insert, ExtTreeMap.getElem?_erase] at hc
      split at hc
      · cases hc
        exact .inr ⟨c, hmoved⟩
      · split at hc
        · cases hc
        · exact .inr ⟨c', hc⟩
  | setChannel name hd | setHook name endpoint hd =>
    refine hv.of_collections fun c' objects hc => .inr ⟨c', ?_⟩
    simp only [foldl_cons, foldl_nil, apply] at hc
    split at hc <;> exact hc
  | _ => exact hv.of_collections fun c' objects hc => .inr ⟨c', hc⟩

/-! ### Calls whose records are read back -/

variable (lib) in
def Db.Walks (ctx : Ctx) (db db' : Db) : Prop :=
  (∃ c id, db' = (db.finish lib ctx (db.delExclusive lib ctx c id)).2) ∨
    ∃ total, db' = { db with expiredObjectsTotal := total }

variable (lib) in
/-- What a call appends is read back as it was written. PDEL and the sweeper delete one object after
the other, so they append in the states their own deletes lead to. -/
def Call.Readable (db : Db) (ctx : Ctx) : Call → Prop
  | .request r => (r.plan lib db ctx).Readable lib db
  | .flushdb => (LogRecord.command .flushDb).Readable lib
  | .aofshrink => ∀ record ∈ db.snapshotBaseLogRecords ctx, record.Readable lib
  | .pdel _ _ | .expireDue _ _ => ∀ mid, Relation.ReflTransGen (Db.Walks lib ctx) db mid →
    ∀ c id, (mid.delExclusive lib ctx c id).Readable lib mid
  | _ => True

theorem Call.Readable.of_lossless (hcodec : lib.codec.Lossless) (db : Db) (ctx : Ctx)
    (call : Call) : call.Readable lib db ctx := by
  cases call with
  | request r => exact Plan.Readable.of_lossless hcodec _
  | flushdb => exact fun _ => decodeLogRecord_of_toJson hcodec
  | aofshrink => exact fun _ _ _ => decodeLogRecord_of_toJson hcodec
  | pdel | expireDue => exact fun _ _ _ _ => Plan.Readable.of_lossless hcodec _
  | _ => trivial

theorem Db.walk_keeps {I : Db → Prop} {db : Db} {ctx : Ctx}
    (hread : ∀ mid, Relation.ReflTransGen (Db.Walks lib ctx) db mid →
      ∀ c id, (mid.delExclusive lib ctx c id).Readable lib mid)
    (hdel : ∀ mid c id, (mid.delExclusive lib ctx c id).Readable lib mid → I mid →
      I (mid.finish lib ctx (mid.delExclusive lib ctx c id)).2)
    (hcount : ∀ mid total, I mid → I { mid with expiredObjectsTotal := total }) (h : I db) :
    (∀ c pattern, I (db.pdel lib ctx c pattern).2) ∧
      ∀ nowMs max, I (db.expireDue lib ctx nowMs max).2 := by
  let P := fun mid => Relation.ReflTransGen (Db.Walks lib ctx) db mid ∧ I mid
  have hstep : ∀ mid c id, P mid →
      Ends P P (mid.finish lib ctx (mid.delExclusive lib ctx c id)) :=
    fun mid c id hmid => .of_snd ⟨hmid.1.tail (.inl ⟨c, id, rfl⟩),
      hdel mid c id (hread mid hmid.1 c id) hmid.2⟩
  have hstart : P db := ⟨.refl, h⟩
  constructor
  · intro c pattern
    exact (pdel_ends (fun mid => hstep mid c) (fun _ h => h) hstart pattern).same.2
  · intro nowMs max
    have hcounts : ∀ mid total, P mid → P { mid with expiredObjectsTotal := total } :=
      fun mid total hmid => ⟨hmid.1.tail (.inr ⟨total, rfl⟩), hcount mid total hmid.2⟩
    exact (expireDue_ends hstep hcounts hstart nowMs max).same.2

/-! ### Databases that a log can stand for -/

variable (lib) in
structure Durable (db : Db) : Prop extends Faithful lib db where
  stores : db.storage.storesCommandLog = true
  indexable : Indexable lib db.view

variable {records : List LogRecord}

theorem sound_of_commands (hreplay : ∀ c ∈ records.filterMap LogRecord.command?, c.Replayable lib)
    (habsolute : ∀ c ∈ records.filterMap LogRecord.command?, c.relative = false) :
    ∀ record ∈ records, record.Sound lib := by
  intro record hrecord
  refine ⟨replayable_of_commands hreplay record hrecord, ?_⟩
  cases record with
  | command c => exact habsolute c (mem_filterMap.2 ⟨_, hrecord, rfl⟩)
  | _ => rfl

variable {db : Db}

theorem Faithful.congr {db' : Db} (h : Faithful lib db) (hstore : db'.toStore = db.toStore)
    (hlog : db'.storage.entries = db.storage.entries) : Faithful lib db' := by
  refine ⟨?_, ?_, ?_, ?_, ?_⟩
  · rw [hstore]
    exact h.keyed
  · rw [hlog]
    exact h.written
  · rw [hlog]
    exact h.positive
  · rw [hlog]
    exact h.increasing
  · rw [hlog, hstore]
    exact h.shows

theorem Faithful.of_empty (hlog : db.storage.entries = []) (hkeyed : db.Keyed)
    (hview : db.view = {}) : Faithful lib db := by
  have hnone : ∀ entry, entry ∉ db.storage.entries := by
    intro entry he
    rw [hlog] at he
    cases he
  refine ⟨hkeyed, fun e he => absurd he (hnone e), fun e he => absurd he (hnone e), ?_, ?_⟩
  · rw [hlog]
    exact increasing_nil
  · rw [hlog, hview]
    rfl

theorem Indexable.of_empty (h : v = {}) : Indexable lib v := by
  intro c id object hget
  rw [h] at hget
  simp [View.get] at hget

theorem Faithful.logged {db' : Db} (h : Faithful lib db)
    {entries : List StorageEntry} {nowNs : Nat} {sequences : List Nat}
    (hlogged : db.Logged entries db') (hlen : sequences.length = records.length)
    (hencode : encodeEntriesForSequences lib nowNs records sequences = .ok entries)
    (hread : ∀ record ∈ records, record.Readable lib)
    (hsound : ∀ record ∈ records, record.Sound lib) {store : Store} (hkeyed : store.Keyed)
    (hview : store.view = (records.filterMap LogRecord.command?).foldl (apply lib 0) db.view) :
    Faithful lib { db' with toStore := store } where
  keyed := hkeyed
  written := by
    intro entry he
    rw [hlogged.log] at he
    rcases mem_append.1 he with he | he
    · exact h.written entry he
    · exact encodeEntries_written hread hsound hencode entry he
  positive := by
    intro entry he
    rw [hlogged.log] at he
    rcases mem_append.1 he with he | he
    · exact h.positive entry he
    · exact hlogged.positive entry he
  increasing := by
    rw [hlogged.log]
    exact (increasing_append_iff h.increasing).2 ⟨hlogged.increasing, hlogged.after⟩
  shows := by
    have hholds := holds_encodeEntries hlen hencode hread
    rw [hlogged.log, logView_append, h.shows, hholds.foldl_applyEntry, foldl_applyRecord, hview]

namespace Durable

variable {db db' : Db} {ctx : Ctx}

theorem unlogged (h : Durable lib db) (hun : db.Unlogged db') : Durable lib db' where
  toFaithful := h.toFaithful.congr hun.store hun.log.entries
  stores := hun.log.stores.trans h.stores
  indexable := by
    rw [hun.store]
    exact h.indexable

theorem persisted (h : Durable lib db) {w : Write} {aim : Aim}
    (hread : ∀ record ∈ w.batch.numbered lib (range' (db.nextSequence + 1) w.batch.count),
      record.Readable lib) (hw : w.Intended lib db.view aim) (hidx : w.effect.indexable lib)
    (hp : db.Persisted lib ctx w.batch db') :
    Durable lib { db' with toStore := (w.apply lib db.toStore).2 } := by
  rcases hp with ⟨hno, -⟩ | ⟨-, entries, hlogged, hencode⟩
  · rw [h.stores] at hno
    cases hno
  obtain ⟨answer, -, hview⟩ := hw.ok hidx 0
  have hcommands := w.batch.commands_numbered lib
    (range' (db.nextSequence + 1) w.batch.count)
  have hsound := @sound_of_commands lib
    (w.batch.numbered lib (range' (db.nextSequence + 1) w.batch.count))
    (by rw [hcommands]; exact hw.intends.replayable hidx)
    (by rw [hcommands]; exact hw.intends.absolute)
  refine { h.toFaithful.logged hlogged
      (by rw [length_range', w.batch.length_numbered]) hencode hread hsound
      (h.keyed.write lib w) (by rw [hcommands, hview]) with
    stores := hlogged.stores.trans h.stores
    indexable := ?_ }
  rw [hview]
  exact hw.intends.indexable_view hidx h.indexable

variable (ctx) in
theorem finish (h : Durable lib db) {plan : Plan} {aim : Aim}
    (hread : plan.Readable lib db) (hplan : plan.Intended lib db.view aim)
    (hres : aim = .plain ∨ ∀ e, (db.finish lib ctx plan).1 ≠ .error (.index e)) :
    Durable lib (db.finish lib ctx plan).2 :=
  hplan.keeps hres h (fun _ => h.unlogged)
    fun w _ hwrite hw hidx hp => h.persisted (hread w hwrite) hw hidx hp

theorem pdel (h : Durable lib db) (collection pattern : String)
    (hread : (Call.pdel collection pattern).Readable lib db ctx) :
    Durable lib (db.pdel lib ctx collection pattern).2 := by
  refine (Db.walk_keeps hread (fun mid c id hr hmid => ?_) (fun _ _ hmid => ?_) h).1 _ _
  · exact hmid.finish ctx hr (mid.delExclusive_intended lib ctx c id) (.inl rfl)
  · exact { hmid.toFaithful.congr rfl rfl with stores := hmid.stores, indexable := hmid.indexable }

theorem flushdb (h : Durable lib db) (hread : (LogRecord.command .flushDb).Readable lib) :
    Durable lib (db.flushdb lib ctx).2 := by
  rcases db.flushdb_steps lib ctx with ⟨e, -, hun⟩ | ⟨db', hp, -, hr⟩
  · exact h.unlogged hun
  rw [hr]
  rcases hp with ⟨hno, -⟩ | ⟨-, entries, hlogged, hencode⟩
  · rw [h.stores] at hno
    cases hno
  have hstores := hlogged.stores.trans h.stores
  have hclear : db'.clear.view = {} := db'.view_clear
  rcases db'.storage.snapshot_cases [] with ⟨e, -, hsame⟩ | ⟨-, hlog, hs, -⟩
  · -- the log could not be cut off, but ends with the record of the flush
    have hsound : ∀ record ∈ [LogRecord.command .flushDb], record.Sound lib := by
      intro record hrecord
      cases mem_singleton.1 hrecord
      exact ⟨fun _ hgeo => (nomatch hgeo), rfl⟩
    have hfaithful := h.toFaithful.logged hlogged length_range' hencode
      (forall_mem_singleton.2 hread) hsound db'.keyed_clear hclear
    have hcut : Faithful lib
        { db' with toStore := db'.clear, storage := (db'.storage.snapshot []).2 } :=
      hfaithful.congr rfl hsame.entries
    exact { hcut with stores := hsame.stores.trans hstores, indexable := Indexable.of_empty hclear }
  · have hcut : Faithful lib
        { db' with toStore := db'.clear, storage := (db'.storage.snapshot []).2 } :=
      Faithful.of_empty hlog db'.keyed_clear hclear
    exact { hcut with stores := hs.trans hstores, indexable := Indexable.of_empty hclear }

theorem aofshrink (h : Durable lib db)
    (hread : ∀ record ∈ db.snapshotBaseLogRecords ctx, record.Readable lib)
    (hfresh : Fresh ctx.nowMs db.view) : Durable lib (db.aofshrink lib ctx).2 := by
  rw [Db.aofshrink]
  rcases db.rewriteLogSnapshot_cases lib ctx (db.snapshotBaseLogRecords ctx) with
    ⟨hun, -⟩ | ⟨-, hnew⟩
  · exact h.unlogged hun
  have hev : db.view.Evaluable := by
    rw [← h.shows]
    exact logView_evaluable _
  have hsound : ∀ record ∈ db.snapshotBaseLogRecords ctx, record.Sound lib := by
    intro record hrecord
    refine ⟨?_, Db.snapshotBaseLogRecords_absolute record hrecord⟩
    exact Db.snapshotBaseLogRecords_replayable
      (fun c id object hget _ => h.indexable c id object hget) record hrecord
  have hholds := hnew.holds hread
  refine { keyed := ?_, written := encodeEntries_written hread hsound hnew.encoded
           positive := hnew.positive, increasing := hnew.increasing, shows := ?_
           stores := hnew.stores.trans h.stores, indexable := ?_ }
  · rw [hnew.store]
    exact h.keyed
  · rw [logView, hholds.foldl_applyEntry, Db.snapshotBaseLogRecords_view h.keyed hev,
      hfresh.live_eq, hnew.store]
  · rw [hnew.store]
    exact h.indexable

theorem build {storage : LogStore} {config : Config} (hempty : storage.entries = [])
    (hstores : storage.storesCommandLog)
    (hbuild : (build lib ctx storage config).1 = .ok db) : Durable lib db := by
  obtain ⟨hstorage, hkeyed, hview, -⟩ := build_empty hempty hbuild
  have hsame := storage.sameLog_fault
  rw [← hstorage] at hsame
  exact { Faithful.of_empty (hsame.entries.trans hempty) hkeyed hview with
    stores := hsame.stores.trans hstores, indexable := Indexable.of_empty hview }

end Durable

end LatLng.Core
