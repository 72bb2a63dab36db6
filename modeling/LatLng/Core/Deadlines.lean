import LatLng.Core.Growth
import LatLng.Core.Reachable

/-! The expiry index as long as calls succeed: it lists the deadline of every stored object and
nothing else. A SET that fails after its record was logged is what can break this. -/

namespace LatLng.Core

open Geo Geofence Storage Std List

def Listed (objects : ExtTreeMap String Object) (expirations : Expirations) : Prop :=
  ∀ deadline id, deadlineOf objects id = some deadline → (deadline, id) ∈ expirations

theorem Listed.update {objects objects' : ExtTreeMap String Object} {expirations : Expirations}
    {id : String} (h : Listed objects expirations)
    (hother : ∀ other, id ≠ other → objects'[other]? = objects[other]?) :
    Listed objects' (noteDeadline (dropDeadline expirations (deadlineOf objects id) id)
      (deadlineOf objects' id) id) := by
  intro deadline other hd
  rw [mem_noteDeadline]
  by_cases hid : id = other
  · subst hid
    exact .inl ⟨hd, rfl⟩
  · rw [deadlineOf, hother other hid] at hd
    exact .inr (mem_dropDeadline.2 ⟨fun hsame => hid hsame.2, h deadline other hd⟩)

namespace Collection

structure Timed (c : Collection) : Prop extends c.Keyed where
  listed : Listed c.objects c.expirations

variable {c : Collection}

theorem Timed.change (h : c.Timed) {id : String} {c' : Collection} (hc : c.Changes id c') :
    c'.Timed := by
  refine ⟨h.toKeyed.change hc, ?_⟩
  rcases hc.deadlines with ⟨hexp, hsame⟩ | hexp
  · intro deadline other hd
    rw [hexp]
    refine h.listed deadline other ?_
    by_cases hid : id = other
    · subst hid
      exact hsame.symm.trans hd
    · rwa [deadlineOf, hc.others other hid] at hd
  · rw [hexp]
    exact h.listed.update hc.others

theorem timed_keptOr (lib : Lib) : Collection.KeptOr lib Timed fun _ => True := by
  refine .of_changes (fun _ h => h.toKeyed) (fun _ _ => trivial) (fun name => ?_)
    (fun _ _ h => ⟨⟨h.ids, h.deadlines⟩, h.listed⟩) (fun _ _ _ => trivial) fun _ _ _ h hc => h.change hc
  refine ⟨keyed_new name, ?_⟩
  intro deadline id hd
  simp [deadlineOf] at hd

end Collection

/-! ### Runs of calls that succeed -/

variable {lib : Lib}

abbrev Db.Timed (db : Db) : Prop := db.toStore.Each Collection.Timed

abbrev Db.Counted (db : Db) : Prop := lastSequence db.storage.entries ≤ db.nextSequence

structure Db.InStep (db : Db) : Prop where
  timed : db.Timed
  counted : db.Counted

variable (lib) in
def Db.EachOk (db : Db) : List (Ctx × Call) → Prop
  | [] => True
  | (ctx, call) :: calls => (db.call lib ctx call).1 = .ok () ∧ (db.call lib ctx call).2.EachOk calls

namespace Db

variable {db db' : Db} {ctx : Ctx}

theorem Unlogged.counted (h : db.Unlogged db') (hcounted : db.Counted) : db'.Counted := by
  unfold Counted
  rw [h.log.entries]
  exact hcounted.trans h.sequence

theorem Logged.counted {entries : List StorageEntry} (h : db.Logged entries db')
    (hcounted : db.Counted) : db'.Counted := by
  unfold Counted at hcounted ⊢
  rw [h.log]
  cases hlast : entries.getLast? with
  | none =>
    rw [getLast?_eq_none_iff.1 hlast, append_nil, h.sequence]
    omega
  | some last =>
    have hne : entries ≠ [] := by
      rintro rfl
      cases hlast
    have hmem := mem_map_of_mem (f := StorageEntry.sequence) (mem_of_getLast? hlast)
    rw [h.numbered] at hmem
    have hle := (mem_range'_1.1 hmem).2
    rw [lastSequence_append hne, lastSequence_of_getLast? hlast, h.sequence]
    omega

theorem Persisted.counted {batch : Batch} (h : db.Persisted lib ctx batch db')
    (hcounted : db.Counted) : db'.Counted := by
  rcases h with ⟨-, hun⟩ | ⟨-, entries, hlogged, -⟩
  · exact hun.counted hcounted
  · exact hlogged.counted hcounted

theorem Rewritten.counted {records : List LogRecord} (h : db.Rewritten lib ctx records db') :
    db'.Counted := by
  unfold Counted
  cases hlast : db'.storage.entries.getLast? with
  | none =>
    rw [getLast?_eq_none_iff.1 hlast]
    exact Nat.zero_le _
  | some last =>
    have hencoded := h.encoded
    have hseq := sequence_encodeEntries length_range' hencoded
    have hlen := congrArg length hseq
    rw [length_map, length_range'] at hlen
    have hmem := mem_map_of_mem (f := StorageEntry.sequence) (mem_of_getLast? hlast)
    have hne : ¬ db'.storage.entries.length = 0 := by
      intro hzero
      rw [length_eq_zero_iff.1 hzero] at hlast
      cases hlast
    rw [hseq] at hmem
    have hle := (mem_range'_1.1 hmem).2
    rw [lastSequence_of_getLast? hlast, h.sequence, if_neg hne, hlen]
    omega

namespace InStep

variable (h : db.InStep)

include h

theorem of_unlogged (hun : db.Unlogged db') : db'.InStep := by
  refine ⟨?_, hun.counted h.counted⟩
  rw [Timed, hun.store]
  exact h.timed

variable {entries : List StorageEntry}

theorem of_logged (hlogged : db.Logged entries db') : db'.InStep := by
  refine ⟨?_, hlogged.counted h.counted⟩
  rw [Timed, hlogged.store]
  exact h.timed

theorem finish (ctx : Ctx) (plan : Plan) :
    Ends InStep (fun _ => True) (db.finish lib ctx plan) := by
  cases plan with
  | done result =>
    cases result with
    | error e => trivial
    | ok answer => exact h
  | write w =>
    rw [Db.finish]
    rcases db.commit_cases lib ctx w with ⟨e, he, -⟩ | ⟨db', hp, hcommit⟩
    · rcases hr : db.commit lib ctx w with ⟨r, db''⟩
      rw [hr] at he
      cases he
      trivial
    · have hwrite := (Collection.timed_keptOr lib).write h.timed w
      rw [hcommit]
      rcases hr : w.apply lib db.toStore with ⟨_ | _, s⟩
      · trivial
      · rw [hr] at hwrite
        exact ⟨hwrite, hp.counted h.counted⟩

theorem appendLogRecords (records : List LogRecord) :
    (db.appendLogRecords lib ctx records).2.InStep := by
  have hcases := db.persist_cases lib ctx (.records records)
  rcases hcases with ⟨-, -, hun⟩ | ⟨-, -, hun⟩ | ⟨-, -, entries, hlogged, -⟩
  · exact h.of_unlogged hun
  · exact h.of_unlogged hun
  · exact h.of_logged hlogged

theorem rewriteLogSnapshot (records : List LogRecord) :
    (db.rewriteLogSnapshot lib ctx records).2.InStep := by
  rcases db.rewriteLogSnapshot_cases lib ctx records with ⟨hun, -⟩ | ⟨-, hnew⟩
  · exact h.of_unlogged hun
  · refine ⟨?_, hnew.counted⟩
    rw [Timed, hnew.store]
    exact h.timed

theorem applyReplicatedEntries {last : Nat}
    (hok : (db.applyReplicatedEntries lib ctx entries).1 = .ok last) :
    (db.applyReplicatedEntries lib ctx entries).2.InStep := by
  rcases db.applyReplicatedEntries_cases lib ctx entries with
    ⟨-, hr⟩ | ⟨-, e, storage, -, -, hr⟩ | ⟨-, hne, storage, hlog, -, -, hr⟩
  · rw [hr]
    exact h
  · rw [hr] at hok
    cases hok
  · have hreplay := (Collection.timed_keptOr lib).applyPersistedEntries h.timed ctx.nowMs entries
    rw [hr, Db.appliedBatch] at hok ⊢
    rcases hs : applyPersistedEntries lib ctx.nowMs db.toStore entries with ⟨_ | _, s⟩
    · rw [hs] at hok
      cases hok
    · rw [hs] at hreplay
      refine ⟨Store.Each.gcCollections (Collection.timed_keptOr lib).remove hreplay _, ?_⟩
      show lastSequence storage.entries ≤ lastSequence entries
      rw [hlog, lastSequence_append hne]

omit h in
theorem flushdb (hok : (db.flushdb lib ctx).1 = .ok ()) : (db.flushdb lib ctx).2.InStep := by
  refine ⟨?_, ?_⟩
  · rcases db.flushdb_steps lib ctx with ⟨e, he, -⟩ | ⟨db', -, -, hr⟩
    · cases he.symm.trans hok
    · rw [hr]
      exact Store.Each.clear _
  · rcases db.flushdb_cases lib ctx with ⟨e, he, -⟩ | ⟨-, hempty, -⟩
    · cases he.symm.trans hok
    · rw [Counted, hempty]
      exact Nat.zero_le _

omit h in
theorem resetReplicationState (hok : db.resetReplicationState.1 = .ok ()) :
    db.resetReplicationState.2.InStep := by
  rw [Db.resetReplicationState] at hok ⊢
  dsimp only at hok ⊢
  rcases db.storage.snapshot_cases [] with ⟨e, he, -⟩ | ⟨-, hlog, -⟩
  · rcases hs : db.storage.snapshot [] with ⟨r, storage⟩
    rw [hs] at he hok
    cases he
    cases hok
  · rcases hs : db.storage.snapshot [] with ⟨_ | _, storage⟩
    · rw [hs] at hok
      cases hok
    · rw [hs] at hlog
      refine ⟨Store.Each.clear _, ?_⟩
      show lastSequence storage.entries ≤ 0
      rw [hlog]
      exact Nat.zero_le _

theorem call {call : Call} (hok : (db.call lib ctx call).1 = .ok ()) :
    (db.call lib ctx call).2.InStep := by
  have hdel : ∀ db collection id, InStep db →
      Ends InStep (fun _ => True) (db.finish lib ctx (db.delExclusive lib ctx collection id)) :=
    fun db collection id hdb => hdb.finish ctx _
  have hresult : ∀ {α : Type} {r : Except CoreError α}, (r.map fun _ => ()) = .ok () →
      ∃ a, r = .ok a := by
    rintro α (_ | a) hr
    · cases hr
    · exact ⟨a, rfl⟩
  cases call with
  | request request =>
    obtain ⟨answer, hanswer⟩ := hresult hok
    exact (h.finish ctx (request.plan lib db ctx)).of_ok hanswer
  | pdel collection pattern =>
    obtain ⟨n, hn⟩ := hresult hok
    exact (Db.pdel_ends (fun db => hdel db collection) (fun _ _ => trivial) h pattern).of_ok hn
  | expireDue nowMs max =>
    obtain ⟨n, hn⟩ := hresult hok
    have hcount : ∀ db total, InStep db → InStep { db with expiredObjectsTotal := total } :=
      fun db total hdb => ⟨hdb.timed, hdb.counted⟩
    exact (Db.expireDue_ends hdel hcount h nowMs max).of_ok hn
  | gc =>
    exact ⟨Store.Each.gcCollections (Collection.timed_keptOr lib).remove h.timed _, h.counted⟩
  | flushdb => exact flushdb hok
  | aofshrink => exact h.rewriteLogSnapshot _
  | appendLogRecords records => exact h.appendLogRecords records
  | rewriteLogSnapshot records => exact h.rewriteLogSnapshot records
  | resetReplicationState => exact resetReplicationState hok
  | applyReplicatedEntries entries =>
    obtain ⟨last, hlast⟩ := hresult hok
    exact h.applyReplicatedEntries hlast
  | setConfig config => exact ⟨h.timed, h.counted⟩
  | closeStorage => exact ⟨h.timed, h.counted⟩
  | readLog =>
    refine ⟨h.timed, ?_⟩
    show lastSequence db.storage.fault.2.entries ≤ _
    rw [db.storage.sameLog_fault.entries]
    exact h.counted
  | query => exact h

theorem run {calls : List (Ctx × Call)} (hok : db.EachOk lib calls) :
    (db.run lib calls).InStep := by
  induction calls generalizing db with
  | nil => exact h
  | cons step calls ih => exact ih (h.call hok.1) hok.2

end InStep

theorem inStep_build {storage : LogStore} {config : Config} (hlog : Increasing storage.entries)
    (hbuild : (build lib ctx storage config).1 = .ok db) : db.InStep := by
  obtain ⟨hsame, hnext⟩ := build_log hbuild
  refine ⟨?_, ?_⟩
  · obtain ⟨s, hs, rfl⟩ := build_eq_ok hbuild
    have hreplay := (Collection.timed_keptOr lib).applyPersistedEntries Store.Each.empty ctx.nowMs
      (storage.entries.filter fun entry => 0 < entry.sequence)
    rw [replayLog_eq_ok hs] at hreplay
    exact Store.Each.gcCollections (Collection.timed_keptOr lib).remove hreplay _
  · rw [Db.Counted, hsame.entries, hnext]
    exact hlog.lastSequence_le_numbered

end Db

end LatLng.Core
