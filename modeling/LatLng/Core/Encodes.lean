import LatLng.Core.Compact

/-! The records that the database encodes for a call, and where the entries of the log come
from. -/

namespace LatLng.Core

open Geo Geofence Storage List

variable {lib : Lib}

def Call.deletes : Call → Bool
  | .pdel _ _ => true
  | .expireDue _ _ => true
  | _ => false

variable (lib) in
inductive Db.Writes (db : Db) (ctx : Ctx) : Call → LogRecord → Prop
  | request {request : Request} {w : Write} {sequences : List Nat} {record : LogRecord}
      (hplan : request.plan lib db ctx = .write w)
      (hrecord : record ∈ w.batch.numbered lib sequences) : Writes db ctx (.request request) record
  | delete {call : Call} {mid : Db} {collection id : String} {w : Write} {sequences : List Nat}
      {record : LogRecord} (hcall : call.deletes = true)
      (hplan : mid.delExclusive lib ctx collection id = .write w)
      (hrecord : record ∈ w.batch.numbered lib sequences) : Writes db ctx call record
  | flushdb : Writes db ctx .flushdb (.command .flushDb)
  | aofshrink {record : LogRecord} (hrecord : record ∈ db.snapshotBaseLogRecords ctx) :
      Writes db ctx .aofshrink record
  | appendLogRecords {records : List LogRecord} {record : LogRecord} (hrecord : record ∈ records) :
      Writes db ctx (.appendLogRecords records) record
  | rewriteLogSnapshot {records : List LogRecord} {record : LogRecord}
      (hrecord : record ∈ records) : Writes db ctx (.rewriteLogSnapshot records) record

def Call.handed : Call → List StorageEntry
  | .applyReplicatedEntries entries => entries
  | _ => []

variable (lib) in
def Db.Sourced (db : Db) (ctx : Ctx) (call : Call) (db' : Db) : Prop :=
  ∀ entry ∈ db'.storage.entries, entry ∈ db.storage.entries ∨ entry ∈ call.handed ∨
    ∃ record, db.Writes lib ctx call record ∧ lib.codec.toJson record = .ok entry.command

namespace Db.Sourced

variable {db db' : Db} {ctx : Ctx} {call : Call}

theorem of_same (h : db'.storage.entries = db.storage.entries) : db.Sourced lib ctx call db' := by
  intro entry he
  rw [h] at he
  exact .inl he

theorem of_unlogged (h : db.Unlogged db') : db.Sourced lib ctx call db' := of_same h.log.entries

theorem snapshot_nil {storage : LogStore} (h : db.Sourced lib ctx call { db with storage }) :
    db.Sourced lib ctx call { db with storage := (storage.snapshot []).2 } := by
  intro entry he
  rcases storage.snapshot_cases [] with ⟨e, -, hsame⟩ | ⟨-, hlog, -⟩
  · rw [hsame.entries] at he
    exact h entry he
  · rw [hlog] at he
    cases he

variable {batch : Batch} {mid : Db}

theorem logged {entries : List StorageEntry} {sequences : List Nat}
    (h : db.Sourced lib ctx call mid)
    (hbatch : ∀ record ∈ batch.numbered lib sequences, db.Writes lib ctx call record)
    (hlogged : mid.Logged entries db') (hencode : encodeEntriesForSequences lib ctx.nowNs
      (batch.numbered lib sequences) sequences = .ok entries) : db.Sourced lib ctx call db' := by
  intro entry he
  rw [hlogged.log] at he
  rcases mem_append.1 he with he | he
  · exact h entry he
  · obtain ⟨record, hrecord, hjson⟩ := mem_encodeEntries hencode he
    exact .inr (.inr ⟨record, hbatch record hrecord, hjson⟩)

theorem unlogged (h : db.Sourced lib ctx call mid) (hun : mid.Unlogged db') :
    db.Sourced lib ctx call db' := by
  intro entry he
  rw [hun.log.entries] at he
  exact h entry he

theorem persisted (h : db.Sourced lib ctx call mid)
    (hbatch : ∀ sequences, ∀ record ∈ batch.numbered lib sequences, db.Writes lib ctx call record)
    (hp : mid.Persisted lib ctx batch db') : db.Sourced lib ctx call db' := by
  rcases hp with ⟨-, hun⟩ | ⟨-, entries, hlogged, hencode⟩
  · exact h.unlogged hun
  · exact h.logged (hbatch _) hlogged hencode

variable (ctx) in
theorem persist
    (hbatch : ∀ sequences, ∀ record ∈ batch.numbered lib sequences, db.Writes lib ctx call record) :
    db.Sourced lib ctx call (db.persist lib ctx batch).2 := by
  rcases db.persist_cases lib ctx batch with
    ⟨-, -, hun⟩ | ⟨-, -, hun⟩ | ⟨-, -, entries, hlogged, hencode⟩
  · exact of_unlogged hun
  · exact of_unlogged hun
  · exact (of_same rfl).logged (hbatch _) hlogged hencode

variable (ctx) in
theorem finish (h : db.Sourced lib ctx call mid) {plan : Plan}
    (hplan : ∀ w, plan = .write w → ∀ sequences, ∀ record ∈ w.batch.numbered lib sequences,
      db.Writes lib ctx call record) : db.Sourced lib ctx call (mid.finish lib ctx plan).2 := by
  cases plan with
  | done result => exact h
  | write w =>
    rw [Db.finish]
    rcases mid.commit_cases lib ctx w with ⟨e, -, hun, -⟩ | ⟨db', hp, hcommit⟩
    · exact h.unlogged hun
    · have hmid := h.persisted (hplan w rfl) hp
      rw [hcommit]
      exact hmid

theorem delete (hcall : call.deletes) (mid : Db) (collection id : String)
    (h : db.Sourced lib ctx call mid) :
    Ends (db.Sourced lib ctx call) (db.Sourced lib ctx call)
      (mid.finish lib ctx (mid.delExclusive lib ctx collection id)) := by
  have hplan : ∀ w, mid.delExclusive lib ctx collection id = .write w → ∀ sequences,
      ∀ record ∈ w.batch.numbered lib sequences, db.Writes lib ctx call record :=
    fun w hw _ _ hrecord => .delete hcall hw hrecord
  have hfinish := h.finish ctx hplan
  exact .of_snd hfinish

theorem rewrite {records : List LogRecord}
    (hrecords : ∀ record ∈ records, db.Writes lib ctx call record) :
    db.Sourced lib ctx call (db.rewriteLogSnapshot lib ctx records).2 := by
  rcases db.rewriteLogSnapshot_cases lib ctx records with ⟨hun, -⟩ | ⟨-, hnew⟩
  · exact of_unlogged hun
  · intro entry he
    obtain ⟨record, hrecord, hjson⟩ := mem_encodeEntries hnew.encoded he
    exact .inr (.inr ⟨record, hrecords record hrecord, hjson⟩)

theorem flushdb : db.Sourced lib ctx .flushdb (db.flushdb lib ctx).2 := by
  rcases db.flushdb_steps lib ctx with ⟨e, -, hun⟩ | ⟨db', hp, -, hr⟩
  · exact of_unlogged hun
  · have happend : db.Sourced lib ctx .flushdb db' := by
      refine (of_same rfl).persisted (fun _ record hrecord => ?_) hp
      cases mem_singleton.1 hrecord
      exact .flushdb
    rw [hr]
    exact snapshot_nil happend

theorem resetReplicationState :
    db.Sourced lib ctx .resetReplicationState db.resetReplicationState.2 := by
  have hcut := @snapshot_nil lib db ctx .resetReplicationState db.storage (of_same rfl)
  rw [Db.resetReplicationState]
  rcases hs : db.storage.snapshot [] with ⟨_ | _, storage⟩ <;> rw [hs] at hcut <;> exact hcut

theorem applyReplicatedEntries (entries : List StorageEntry) :
    db.Sourced lib ctx (.applyReplicatedEntries entries)
      (db.applyReplicatedEntries lib ctx entries).2 := by
  rcases db.applyReplicatedEntries_cases lib ctx entries with
    ⟨-, hr⟩ | ⟨-, e, storage, hstorage, -, hr⟩ | ⟨-, -, storage, hlog, -, -, hr⟩
  · rw [hr]
    exact of_same rfl
  · have hlog := congrArg LogStore.entries hstorage
    rw [hr]
    exact of_same hlog
  · intro entry he
    rw [hr, Db.storage_appliedBatch, hlog] at he
    exact (mem_append.1 he).imp_right .inl

variable (lib db ctx call) in
theorem of_call : db.Sourced lib ctx call (db.call lib ctx call).2 := by
  cases call with
  | request request => exact (of_same rfl).finish ctx fun w hw _ _ hrecord => .request hw hrecord
  | pdel collection pattern =>
    exact (Db.pdel_ends (fun db => delete rfl db collection) (fun _ h => h) (of_same rfl)
      pattern).same
  | expireDue nowMs max =>
    exact (Db.expireDue_ends (delete rfl) (fun _ _ h => h) (of_same rfl) nowMs max).same
  | flushdb => exact flushdb
  | aofshrink => exact rewrite fun _ hrecord => .aofshrink hrecord
  | appendLogRecords records =>
    exact @persist lib db ctx _ (.records records) fun _ _ hrecord => .appendLogRecords hrecord
  | rewriteLogSnapshot records => exact rewrite fun _ hrecord => .rewriteLogSnapshot hrecord
  | resetReplicationState => exact resetReplicationState
  | applyReplicatedEntries entries => exact applyReplicatedEntries entries
  | readLog => exact of_same db.storage.sameLog_fault.entries
  | _ => exact of_same rfl

end Db.Sourced

end LatLng.Core
