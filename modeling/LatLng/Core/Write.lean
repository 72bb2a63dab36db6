import LatLng.Core.View

/-! A write in the shape all commands share: what the read section decided, the records it
puts into the log, and the change it then makes to the state. -/

namespace LatLng.Core

open Geo Geofence Storage List

inductive Answer where
  | unit
  | bool (b : Bool)
  | count (n : Nat)
deriving DecidableEq, Repr

inductive Mutation where
  | upsert (object : Object)
  | remove (id : String)
  | insertFields (id : String) (fields : List FieldEntry)
  | setExpiry (id : String) (expiresAt : Option Nat)
  | replaceGeo (id : String) (geo : GeoType) (clearTtl : Bool)

inductive Effect where
  | mutate (collection : String) (mutation : Mutation)
  | createCollection (collection : String)
  | dropCollection (collection : String)
  | rename (collection newName : String)
  | setChannel (name : String) (d : GeofenceDef)
  | delChannel (name : String)
  | pdelChannel (pattern : String)
  | setHook (name endpoint : String) (d : GeofenceDef)
  | delHook (name : String)
  | pdelHook (pattern : String)

/-- The records of one append: a command with the webhook jobs it triggers, or plain records. -/
inductive Batch where
  | command (command : Command) (webhooks : List WebhookEnqueueRecord)
  | records (records : List LogRecord)

structure Write where
  batch : Batch
  effect : Effect
  planned : List PreparedMutation
  /-- The version of the collection when it was read; none on the exclusive paths. -/
  version : Option Nat
  reply : Answer → Except CoreError Answer

inductive Plan where
  | done (result : Except CoreError Answer)
  | write (w : Write)

variable (lib : Lib)

/-- The returned flag tells whether the object was there. -/
def Mutation.apply (v : VersionedCollection) : Mutation → Except CoreError Bool × VersionedCollection
  | .upsert object =>
    match v.collection.upsert lib.toFenceLib object with
    | (.ok (), c) => (.ok true, v.bump c)
    | (.error e, c) => (.error e, { v with collection := c })
  | .remove id =>
    match v.collection.remove id with
    | (some _, c) => (.ok true, v.bump c)
    | (none, c) => (.ok false, { v with collection := c })
  | .insertFields id fields =>
    match v.collection.insertFields id fields with
    | (true, c) => (.ok true, v.bump c)
    | (false, _) => (.ok false, v)
  | .setExpiry id expiresAt =>
    match v.collection.setExpiry id expiresAt with
    | (true, c) => (.ok true, v.bump c)
    | (false, _) => (.ok false, v)
  | .replaceGeo id geo clearTtl =>
    match v.collection.replaceGeo lib.toFenceLib id geo with
    | (.error e, c) => (.error e, { v with collection := c })
    | (.ok present, c) =>
      (.ok present, v.bump (if clearTtl then (c.setExpiry id none).2 else c))

/-- Only SET can find its collection missing here, and then creates it; the other commands
hold a handle to an existing one. -/
def Effect.apply (s : Store) : Effect → Except CoreError Answer × Store
  | .mutate collection mutation =>
    match mutation.apply lib (s.ensureCollectionCell collection) with
    | (.error e, cell) => (.error e, s.setCell collection cell)
    | (.ok present, cell) => (.ok (.bool present), s.setCell collection cell)
  | .createCollection collection =>
    (.ok (.bool true), s.setCell collection (s.ensureCollectionCell collection))
  | .dropCollection collection =>
    (.ok (.bool true), { s with collections := s.collections.erase collection })
  | .rename collection newName => (.ok (.bool true), s.renameCell collection newName)
  | .setChannel name d => (.ok .unit, { s with geofences := s.geofences.setChannel name d })
  | .delChannel name =>
    let (geofences, removed) := s.geofences.delChannel name
    (.ok (.bool removed), { s with geofences })
  | .pdelChannel pattern =>
    let (geofences, count) := s.geofences.pdelChannel lib.toFenceLib pattern
    (.ok (.count count), { s with geofences })
  | .setHook name endpoint d =>
    (.ok .unit, { s with geofences := s.geofences.setHook name endpoint d })
  | .delHook name =>
    let (geofences, removed) := s.geofences.delHook name
    (.ok (.bool removed), { s with geofences })
  | .pdelHook pattern =>
    let (geofences, count) := s.geofences.pdelHook lib.toFenceLib pattern
    (.ok (.count count), { s with geofences })

def Store.applyPlanned (s : Store) (planned : List PreparedMutation) : Store :=
  { s with geofences := planned.foldl Registry.applyPreparedMutation s.geofences }

/-- The change to the state, then the fence updates planned for it. FSET skips the fences
when it finds its object gone. -/
def Write.apply (w : Write) (s : Store) : Except CoreError Answer × Store :=
  match w.effect.apply lib s with
  | (.error e, s) => (.error e, s)
  | (.ok answer, s) =>
    match w.effect, answer with
    | .mutate _ (.insertFields _ _), .bool false => (w.reply answer, s)
    | _, _ => (w.reply answer, s.applyPlanned w.planned)

def Batch.count : Batch → Nat
  | .command _ webhooks => 1 + webhooks.length
  | .records rs => rs.length

def Batch.numbered (sequences : List Nat) : Batch → List LogRecord
  | .command c webhooks => buildCommandBatchRecords lib c sequences webhooks
  | .records rs => rs

def LogRecord.command? : LogRecord → Option Command
  | .command c => some c
  | _ => none

def Batch.commands : Batch → List Command
  | .command c _ => [c]
  | .records rs => rs.filterMap LogRecord.command?

namespace Db

def persist (db : Db) (ctx : Ctx) : Batch → Except CoreError (List Nat) × Db
  | .command command webhooks => db.persistCommandBatch lib ctx command webhooks
  | .records records => db.appendLogRecords lib ctx records

/-- The rest of a command after its read section, with nobody else in between. The version
is then still the one that was read. -/
def commit (db : Db) (ctx : Ctx) (w : Write) : Except CoreError Answer × Db :=
  match db.persist lib ctx w.batch with
  | (.error e, db) => (.error e, db)
  | (.ok _, db) =>
    let (result, store) := w.apply lib db.toStore
    (result, { db with toStore := store })

def finish (db : Db) (ctx : Ctx) : Plan → Except CoreError Answer × Db
  | .done result => (result, db)
  | .write w => db.commit lib ctx w

end Db

/-! ### How a batch reaches the log -/

structure Db.Unlogged (db db' : Db) : Prop where
  store : db'.toStore = db.toStore
  config : db'.config = db.config
  log : db.storage.SameLog db'.storage
  sequence : db.nextSequence ≤ db'.nextSequence

structure Db.Logged (db : Db) (entries : List StorageEntry) (db' : Db) : Prop where
  store : db'.toStore = db.toStore
  config : db'.config = db.config
  log : db'.storage.entries = db.storage.entries ++ entries
  stores : db'.storage.storesCommandLog = db.storage.storesCommandLog
  increasing : Increasing entries
  after : After db.storage.entries.getLast? entries
  numbered : entries.map StorageEntry.sequence = range' (db.nextSequence + 1) entries.length
  sequence : db'.nextSequence = db.nextSequence + entries.length

variable {lib}

section Encoding

variable {nowNs : Nat} {records : List LogRecord} {sequences : List Nat}
  {entries : List StorageEntry}

theorem encodeEntriesForSequences_cons {record : LogRecord} {n : Nat}
    (h : encodeEntriesForSequences lib nowNs (record :: records) (n :: sequences) = .ok entries) :
    ∃ command rest, encodeLogRecord lib record = .ok command ∧
      encodeEntriesForSequences lib nowNs records sequences = .ok rest ∧
      entries = { sequence := n, timestampNs := nowNs, command } :: rest := by
  rw [encodeEntriesForSequences] at h
  cases hr : encodeLogRecord lib record with
  | error e =>
    rw [hr] at h
    cases h
  | ok command =>
    cases hrest : encodeEntriesForSequences lib nowNs records sequences with
    | error e =>
      rw [hr, hrest] at h
      cases h
    | ok rest =>
      rw [hr, hrest] at h
      cases h
      exact ⟨command, rest, rfl, rfl, rfl⟩

variable (hlen : sequences.length = records.length)
  (h : encodeEntriesForSequences lib nowNs records sequences = .ok entries)

include h

theorem mem_encodeEntries {entry : StorageEntry} (he : entry ∈ entries) :
    ∃ record ∈ records, lib.codec.toJson record = .ok entry.command := by
  induction records generalizing sequences entries with
  | nil =>
    cases h
    cases he
  | cons record records ih =>
    cases sequences with
    | nil =>
      cases h
      cases he
    | cons n ns =>
      obtain ⟨command, rest, hr, hrest, rfl⟩ := encodeEntriesForSequences_cons h
      rcases mem_cons.1 he with rfl | he
      · exact ⟨record, mem_cons_self, toJson_of_encode hr⟩
      · obtain ⟨r, hmem, hjson⟩ := ih hrest he
        exact ⟨r, mem_cons_of_mem _ hmem, hjson⟩

include hlen

theorem sequence_encodeEntries : entries.map StorageEntry.sequence = sequences := by
  induction records generalizing sequences entries with
  | nil =>
    rw [length_eq_zero_iff.1 hlen] at h ⊢
    cases h
    rfl
  | cons record records ih =>
    cases sequences with
    | nil => cases hlen
    | cons n ns =>
      obtain ⟨command, rest, -, hrest, rfl⟩ := encodeEntriesForSequences_cons h
      rw [map_cons, ih (Nat.succ.inj hlen) hrest]

theorem toJson_encodeEntries : List.Forall₂
    (fun record entry => lib.codec.toJson record = .ok entry.command) records entries := by
  induction records generalizing sequences entries with
  | nil =>
    cases h
    exact .nil
  | cons record records ih =>
    cases sequences with
    | nil => cases hlen
    | cons n ns =>
      obtain ⟨command, rest, hr, hrest, rfl⟩ := encodeEntriesForSequences_cons h
      exact .cons (toJson_of_encode hr) (ih (Nat.succ.inj hlen) hrest)

theorem holds_encodeEntries (hread : ∀ record ∈ records, record.Readable lib) :
    Holds lib entries records := by
  have hjson := toJson_encodeEntries hlen h
  clear hlen h
  induction hjson with
  | nil => rfl
  | cons hjson _ ih =>
    obtain ⟨hfirst, hrest⟩ := forall_mem_cons.1 hread
    rw [Holds, map_cons, map_cons, ih hrest, hfirst _ hjson]

end Encoding

theorem encodeEntries_total (hjson : lib.codec.Total)
    (nowNs : Nat) (records : List LogRecord) (sequences : List Nat) :
    ∃ entries, encodeEntriesForSequences lib nowNs records sequences = .ok entries := by
  induction records generalizing sequences with
  | nil => exact ⟨[], rfl⟩
  | cons record records ih =>
    cases sequences with
    | nil => exact ⟨[], rfl⟩
    | cons n ns =>
      obtain ⟨payload, hpayload⟩ := hjson record
      obtain ⟨rest, hrest⟩ := ih ns
      rw [encodeEntriesForSequences, encodeLogRecord, hpayload, hrest]
      exact ⟨_, rfl⟩

theorem length_buildCommandBatchRecords (command : Command) (start : Nat)
    (webhooks : List WebhookEnqueueRecord) :
    (buildCommandBatchRecords lib command (range' start (1 + webhooks.length))
      webhooks).length = 1 + webhooks.length := by
  simp [buildCommandBatchRecords]
  omega

variable (lib) in
theorem Batch.length_numbered (batch : Batch) (start : Nat) :
    (batch.numbered lib (range' start batch.count)).length = batch.count := by
  cases batch with
  | command c webhooks => exact length_buildCommandBatchRecords c start webhooks
  | records records => rfl

namespace Db

variable {records : List LogRecord}

variable (lib) in
/-- The records of a batch, numbered from the next sequence number on, are appended as a
whole or not at all. -/
theorem appendNumbered_cases (db : Db) (nowNs : Nat) {count : Nat}
    (hcount : records.length = count) :
    let sequences := range' (db.nextSequence + 1) count
    let r := { db with nextSequence := db.nextSequence + count }.appendNumbered lib nowNs records
      sequences
    (∃ e, r.1 = .error e ∧ db.Unlogged r.2) ∨
    (∃ entries, r.1 = .ok sequences ∧ db.Logged entries r.2 ∧
      encodeEntriesForSequences lib nowNs records sequences = .ok entries) := by
  intro sequences r
  have hle : db.nextSequence ≤ db.nextSequence + count := Nat.le_add_right _ _
  cases hencode : encodeEntriesForSequences lib nowNs records sequences with
  | error e =>
    have hr : r = (.error e, { db with nextSequence := db.nextSequence + count }) := by
      simp only [r, appendNumbered, hencode]
    rw [hr]
    exact .inl ⟨e, rfl, rfl, rfl, LogStore.SameLog.refl _, hle⟩
  | ok entries =>
    have hlen : sequences.length = records.length := by rw [length_range', hcount]
    have hseq := sequence_encodeEntries hlen hencode
    have hentries : entries.length = count := by
      rw [← length_map StorageEntry.sequence, hseq, length_range']
    rcases db.storage.appendBatch_cases entries with
      ⟨e, herr, hsame⟩ | ⟨hok, hlog, hstores, hinc, hafter⟩
    · rcases hs : db.storage.appendBatch entries with ⟨res, storage⟩
      rw [hs] at herr hsame
      dsimp only at herr hsame
      subst herr
      have hr : r = (.error (.storage e),
          { db with nextSequence := db.nextSequence + count, storage }) := by
        simp only [r, appendNumbered, hencode, hs]
      rw [hr]
      exact .inl ⟨_, rfl, rfl, rfl, hsame, hle⟩
    · rcases hs : db.storage.appendBatch entries with ⟨res, storage⟩
      rw [hs] at hok hlog hstores
      dsimp only at hok hlog hstores
      subst hok
      have hr : r = (.ok sequences,
          { db with nextSequence := db.nextSequence + count, storage }) := by
        simp only [r, appendNumbered, hencode, hs]
      rw [hr]
      refine .inr ⟨entries, rfl, ⟨rfl, rfl, hlog, hstores, hinc, hafter, ?_, ?_⟩, rfl⟩
      · rw [hseq, hentries]
      · rw [hentries]

theorem appendNumbered_ok {db db' : Db} {nowNs : Nat}
    {sequences ns : List Nat} (h : db.appendNumbered lib nowNs records sequences = (.ok ns, db')) :
    ∃ entries storage, encodeEntriesForSequences lib nowNs records sequences = .ok entries ∧
      storage.entries = db.storage.entries ++ entries ∧
      storage.storesCommandLog = db.storage.storesCommandLog ∧ db' = { db with storage } := by
  rw [appendNumbered] at h
  split at h
  · cases h
  next entries hencode =>
    rcases db.storage.appendBatch_cases entries with ⟨e, herr, -⟩ | ⟨-, hlog, hstores, -⟩
    · rcases hs : db.storage.appendBatch entries with ⟨res, storage⟩
      rw [hs] at herr h
      subst herr
      cases h
    · rcases hs : db.storage.appendBatch entries with ⟨_ | _, storage⟩
      · rw [hs] at h
        cases h
      · rw [hs] at h hlog hstores
        cases h
        exact ⟨entries, storage, hencode, hlog, hstores, rfl⟩

theorem appendNumbered_error {db db' : Db} {nowNs : Nat} {sequences : List Nat} {e : CoreError}
    (h : db.appendNumbered lib nowNs records sequences = (.error e, db')) :
    ∃ storage, db.storage.SameLog storage ∧ db' = { db with storage } := by
  rw [appendNumbered] at h
  split at h
  · cases h
    exact ⟨db.storage, .refl _, rfl⟩
  next entries hencode =>
    rcases db.storage.appendBatch_cases entries with ⟨e, -, hsame⟩ | ⟨hok, -⟩
    · rcases hs : db.storage.appendBatch entries with ⟨_ | _, storage⟩
      · rw [hs] at h hsame
        cases h
        exact ⟨storage, hsame, rfl⟩
      · rw [hs] at h
        cases h
    · rcases hs : db.storage.appendBatch entries with ⟨_ | _, storage⟩
      · rw [hs] at hok
        cases hok
      · rw [hs] at h
        cases h

variable (lib) in
theorem persist_of_pos (db : Db) (ctx : Ctx) {batch : Batch} (hpos : 0 < batch.count) :
    db.persist lib ctx batch = if db.storage.storesCommandLog then
      { db with nextSequence := db.nextSequence + batch.count }.appendNumbered lib ctx.nowNs
        (batch.numbered lib (range' (db.nextSequence + 1) batch.count))
        (range' (db.nextSequence + 1) batch.count)
      else (.ok (range' (db.nextSequence + 1) batch.count),
        { db with nextSequence := db.nextSequence + batch.count }) := by
  cases batch with
  | command c webhooks =>
    cases hs : db.storage.storesCommandLog <;>
      simp [persist, persistCommandBatch, reserveSequences, hs, Batch.count, Batch.numbered]
  | records rs =>
    cases rs with
    | nil => cases hpos
    | cons record rs =>
      cases hs : db.storage.storesCommandLog <;>
        simp [persist, appendLogRecords, reserveSequences, hs, Batch.count, Batch.numbered]

variable (lib) in
theorem persist_cases (db : Db) (ctx : Ctx) (batch : Batch) :
    let sequences := range' (db.nextSequence + 1) batch.count
    let r := db.persist lib ctx batch
    (∃ e, r.1 = .error e ∧ db.Unlogged r.2) ∨
    (db.storage.storesCommandLog = false ∧ r.1 = .ok sequences ∧ db.Unlogged r.2) ∨
    (db.storage.storesCommandLog = true ∧ r.1 = .ok sequences ∧
      ∃ entries, db.Logged entries r.2 ∧
        encodeEntriesForSequences lib ctx.nowNs (batch.numbered lib sequences) sequences =
          .ok entries) := by
  intro sequences r
  by_cases hnil : batch = .records []
  · -- nothing to append: no sequence number is taken and the backend is not called
    subst hnil
    have hsame : db.Unlogged db := ⟨rfl, rfl, LogStore.SameLog.refl _, le_rfl⟩
    cases hs : db.storage.storesCommandLog with
    | false => exact .inr (.inl ⟨rfl, rfl, hsame⟩)
    | true =>
      exact .inr (.inr ⟨rfl, rfl, [], ⟨rfl, rfl, (append_nil _).symm, rfl, List.Pairwise.nil,
        fun _ _ _ he => absurd he not_mem_nil, rfl, rfl⟩, rfl⟩)
  have hpos : 0 < batch.count := by
    cases batch with
    | command c webhooks => exact Nat.add_pos_left Nat.one_pos _
    | records rs => exact length_pos_iff.2 fun hrs => hnil (hrs ▸ rfl)
  have hr := db.persist_of_pos lib ctx hpos
  change r = _ at hr
  cases hs : db.storage.storesCommandLog with
  | false =>
    rw [hs] at hr
    rw [hr]
    exact .inr (.inl ⟨rfl, rfl, rfl, rfl, LogStore.SameLog.refl _, Nat.le_add_right _ _⟩)
  | true =>
    rw [hs] at hr
    rw [hr]
    rcases db.appendNumbered_cases lib ctx.nowNs
      (batch.length_numbered lib (db.nextSequence + 1)) with
      herr | ⟨entries, hok, hlogged, hencode⟩
    · exact .inl herr
    · exact .inr (.inr ⟨rfl, hok, entries, hlogged, hencode⟩)

end Db

end LatLng.Core
