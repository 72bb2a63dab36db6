import LatLng.Core.Encodes
import LatLng.Core.Sample

/-! When a database can be built again from the log that earlier calls left. -/

namespace LatLng.Core

open Geo Geofence Storage List

variable {lib : Lib}

variable (lib) in
def Restorable (entry : StorageEntry) : Prop :=
  ∃ record, decodeLogRecord lib entry.command = .ok record ∧ record.Replayable lib

variable (lib) in
def RestorableLog (entries : List StorageEntry) : Prop :=
  ∀ entry ∈ entries, 0 < entry.sequence → Restorable lib entry

variable {entries : List StorageEntry} {records : List LogRecord} {ctx : Ctx}

theorem Holds.restorableLog_iff
    (h : Holds lib entries records) (hpositive : ∀ entry ∈ entries, 0 < entry.sequence) :
    RestorableLog lib entries ↔ ∀ record ∈ records, record.Replayable lib := by
  constructor
  · intro hlog record hr
    obtain ⟨entry, he, hdecode⟩ := h.exists_entry hr
    obtain ⟨record', hdecode', hreplay⟩ := hlog entry he (hpositive entry he)
    cases hdecode.symm.trans hdecode'
    exact hreplay
  · intro hreplay entry he _
    obtain ⟨record, hr, hdecode⟩ := h.exists_record he
    exact ⟨record, hdecode, hreplay record hr⟩

/-! ### Replay succeeds exactly on restorable logs -/

theorem applyPersistedEntryToState_isOk_iff (now : Nat) (s : Store) (entry : StorageEntry) :
    (applyPersistedEntryToState lib now s entry).1 = .ok () ↔ Restorable lib entry := by
  rw [applyPersistedEntryToState, Restorable]
  cases hdecode : decodeLogRecord lib entry.command with
  | error e =>
    refine iff_of_false (fun h => by cases h) ?_
    rintro ⟨record, hrecord, -⟩
    cases hrecord
  | ok record =>
    cases record with
    | command c =>
      rcases applyPersistedCommandToState_cases lib now s c with ⟨hc, hok, -⟩ | ⟨hc, e, he⟩
      · exact iff_of_true hok ⟨_, rfl, hc⟩
      · refine iff_of_false ?_ ?_
        · rw [he]
          exact fun h => by cases h
        · rintro ⟨record, hrecord, hreplay⟩
          cases hrecord
          exact hc hreplay
    | _ => exact iff_of_true rfl ⟨_, rfl, trivial⟩

theorem applyPersistedEntries_isOk_iff (now : Nat) (s : Store) (entries : List StorageEntry) :
    (applyPersistedEntries lib now s entries).1 = .ok () ↔
      ∀ entry ∈ entries, Restorable lib entry := by
  induction entries generalizing s with
  | nil => exact iff_of_true rfl fun _ he => absurd he not_mem_nil
  | cons entry entries ih =>
    rw [applyPersistedEntries, forall_mem_cons,
      ← applyPersistedEntryToState_isOk_iff now s entry]
    rcases applyPersistedEntryToState lib now s entry with ⟨e | u, s'⟩
    · refine iff_of_false (fun h => by cases h) ?_
      rintro ⟨h, -⟩
      cases h
    · rw [ih s']
      exact (and_iff_right rfl).symm

theorem replayLog_isOk_iff (now : Nat) (entries : List StorageEntry) :
    (∃ s, replayLog lib now entries = .ok s) ↔ RestorableLog lib entries := by
  have hfilter : RestorableLog lib entries ↔
      ∀ entry ∈ entries.filter (fun entry => 0 < entry.sequence), Restorable lib entry := by
    simp only [RestorableLog, mem_filter, decide_eq_true_eq, and_imp]
  rw [hfilter, ← applyPersistedEntries_isOk_iff now {}, replayLog]
  rcases applyPersistedEntries lib now {} (entries.filter fun entry => 0 < entry.sequence) with
    ⟨e | u, s⟩
  · refine iff_of_false ?_ nofun
    rintro ⟨s, h⟩
    cases h
  · exact iff_of_true ⟨s, rfl⟩ rfl

variable {storage : LogStore}

theorem build_isOk_iff (ctx : Ctx) (hfaults : storage.faults = []) (config : Config) :
    (∃ db, (build lib ctx storage config).1 = .ok db) ↔ RestorableLog lib storage.entries := by
  rw [← replayLog_isOk_iff ctx.nowMs, build, LogStore.read_of_no_faults hfaults]
  dsimp only
  cases hreplay : replayLog lib ctx.nowMs storage.entries with
  | error e =>
    refine iff_of_false ?_ ?_
    · rintro ⟨db, h⟩
      cases h
    · rintro ⟨s, h⟩
      cases h
  | ok s => exact iff_of_true ⟨_, rfl⟩ ⟨s, rfl⟩

variable {db : Db}

theorem restorableLog_of_build {config : Config}
    (h : (build lib ctx storage config).1 = .ok db) : RestorableLog lib db.storage.entries := by
  obtain ⟨s, hreplay, rfl⟩ := build_eq_ok h
  rw [← storage.sameLog_fault.entries] at hreplay
  exact (replayLog_isOk_iff ctx.nowMs _).1 ⟨s, hreplay⟩

theorem replayLog_keyed {now : Nat} {s : Store}
    (h : replayLog lib now entries = .ok s) : s.Keyed := by
  have hkeyed := Store.keyed_empty.applyPersistedEntries lib now
    (entries.filter fun entry => 0 < entry.sequence)
  rw [replayLog_eq_ok h] at hkeyed
  exact hkeyed

theorem build_of_holds {storage : LogStore} (hfaults : storage.faults = [])
    (config : Config) (hholds : Holds lib storage.entries records)
    (hpositive : ∀ entry ∈ storage.entries, 0 < entry.sequence)
    (hreplay : ∀ record ∈ records, record.Replayable lib) :
    ∃ db, (build lib ctx storage config).1 = .ok db ∧ db.storage = storage ∧
      Trimmed ctx.nowMs (records.foldl (View.applyRecord lib ctx.nowMs) {}) db.view := by
  obtain ⟨s, hs, hview⟩ := replayLog_ok ctx.nowMs hpositive hholds hreplay
  rw [build, LogStore.read_of_no_faults hfaults]
  dsimp only
  rw [hs]
  refine ⟨_, rfl, rfl, ?_⟩
  rw [← hview]
  exact (replayLog_keyed hs).trimmed_gc ctx.nowMs

theorem Replays.build {config : Config} {full : View}
    (h : Replays lib storage.entries full) (hbuild : (build lib ctx storage config).1 = .ok db) :
    storage.SameLog db.storage ∧ Trimmed ctx.nowMs full db.view := by
  obtain ⟨s, hs, rfl⟩ := h.replayLog ctx.nowMs
  obtain ⟨s', hs', rfl⟩ := build_eq_ok hbuild
  cases hs.symm.trans hs'
  exact ⟨storage.sameLog_fault, (replayLog_keyed hs).trimmed_gc ctx.nowMs⟩

/-! ### What a call may add to the log -/

/-- Restart stays possible after the call: a geometry that SET accepts can be indexed, so can
every object that a compaction writes out, and records handed in from outside can be applied. -/
def Call.KeepsRestorable (lib : Lib) (db : Db) (ctx : Ctx) : Call → Prop
  | .request (.set req) =>
    req.object.validate lib.toGeoLib = .ok () → req.object.indexable lib.toGeoLib = true
  | .aofshrink => db.Indexed lib ctx.nowMs
  | .appendLogRecords records => ∀ record ∈ records, record.Replayable lib
  | .rewriteLogSnapshot records => ∀ record ∈ records, record.Replayable lib
  | .applyReplicatedEntries entries => RestorableLog lib entries
  | _ => True

section Calls

variable {db : Db} {ctx : Ctx}

theorem Request.plan_replayable {request : Request} {w : Write}
    (hw : request.plan lib db ctx = .write w)
    (hkeeps : (Call.request request).KeepsRestorable lib db ctx) :
    ∀ c ∈ w.batch.commands, c.Replayable lib := by
  intro c hc geo hgeo
  have hplan := request.plan_intended lib db ctx
  rw [hw] at hplan
  obtain ⟨⟨name, id, haim⟩, -⟩ := Write.Intended.intends hplan |>.geometry hc hgeo
  have hedit : ∀ c' id' edit, db.editAim c' id' edit ≠ .store name id geo := by
    intro c' id' edit heq
    rw [Db.editAim] at heq
    split at heq
    · split at heq <;> cases heq
    · cases heq
  cases request with
  | set req =>
    cases haim
    refine hkeeps ?_
    exact Request.plan_valid hw
  | jset c id path value raw | jdel c id path => exact absurd haim (hedit _ _ _)
  | _ => cases haim

theorem Batch.replayable_numbered {batch : Batch} (h : ∀ c ∈ batch.commands, c.Replayable lib)
    {sequences : List Nat} : ∀ record ∈ batch.numbered lib sequences, record.Replayable lib := by
  refine replayable_of_commands ?_
  rwa [batch.commands_numbered lib]

theorem Db.Writes.replayable {call : Call} {record : LogRecord} (h : db.Writes lib ctx call record)
    (hkeeps : call.KeepsRestorable lib db ctx) : record.Replayable lib := by
  cases h with
  | request hplan hrecord =>
    exact Batch.replayable_numbered (Request.plan_replayable hplan hkeeps) record hrecord
  | @delete _ mid collection id w _ _ hcall hplan hrecord =>
    have hintended := mid.delExclusive_intended lib ctx collection id
    rw [hplan] at hintended
    refine Batch.replayable_numbered (fun c hc geo hgeo => ?_) record hrecord
    obtain ⟨⟨name, id, haim⟩, -⟩ := Write.Intended.intends hintended |>.geometry hc hgeo
    cases haim
  | flushdb =>
    intro geo hgeo
    cases hgeo
  | aofshrink hrecord => exact Db.snapshotBaseLogRecords_replayable hkeeps record hrecord
  | appendLogRecords hrecord => exact hkeeps record hrecord
  | rewriteLogSnapshot hrecord => exact hkeeps record hrecord

theorem RestorableLog.call (hcodec : lib.codec.Lossless)
    (h : RestorableLog lib db.storage.entries) (call : Call)
    (hkeeps : call.KeepsRestorable lib db ctx) :
    RestorableLog lib (db.call lib ctx call).2.storage.entries := by
  intro entry he hpos
  rcases Db.Sourced.of_call lib db ctx call entry he with hold | hhanded | ⟨record, hwrites, hjson⟩
  · exact h entry hold hpos
  · cases call with
    | applyReplicatedEntries entries => exact hkeeps entry hhanded hpos
    | _ => cases hhanded
  · exact ⟨record, decodeLogRecord_of_toJson hcodec hjson, hwrites.replayable hkeeps⟩

end Calls

def Db.KeepsRestorable (lib : Lib) (db : Db) : List (Ctx × Call) → Prop
  | [] => True
  | (ctx, call) :: calls =>
    call.KeepsRestorable lib db ctx ∧ (db.call lib ctx call).2.KeepsRestorable lib calls

theorem RestorableLog.run (hcodec : lib.codec.Lossless) {calls : List (Ctx × Call)}
    (h : RestorableLog lib db.storage.entries) (hkeeps : db.KeepsRestorable lib calls) :
    RestorableLog lib (db.run lib calls).storage.entries := by
  induction calls generalizing db with
  | nil => exact h
  | cons step calls ih => exact ih (h.call hcodec step.2 hkeeps.1) hkeeps.2

/-- A database can be built again from the log after any run whose calls keep it
restorable, whether they succeeded or not. -/
theorem build_after_run (hcodec : lib.codec.Lossless) {ctx₀ ctx : Ctx}
    {storage₀ storage : LogStore} {config₀ config : Config} {db₀ : Db} {calls : List (Ctx × Call)}
    (hbuild : (build lib ctx₀ storage₀ config₀).1 = .ok db₀)
    (hkeeps : db₀.KeepsRestorable lib calls) (hfaults : storage.faults = [])
    (hlog : storage.entries = (db₀.run lib calls).storage.entries) :
    ∃ db, (build lib ctx storage config).1 = .ok db := by
  rw [build_isOk_iff ctx hfaults, hlog]
  exact (restorableLog_of_build hbuild).run hcodec hkeeps

open Sample in
theorem build_after_set_idle :
    ∃ db, (build sampleLib sampleCtx
      { entries := (Db.run sampleLib { storage := {} }
          [(sampleCtx, .request (setIdle "fleet" "truck"))]).storage.entries } {}).1 = .ok db :=
  @build_after_run sampleLib sample_lossless sampleCtx sampleCtx {} _ {} {} { storage := {} }
    [(sampleCtx, .request (setIdle "fleet" "truck"))] rfl ⟨fun _ => rfl, trivial⟩ rfl rfl

open Sample in
/-- SET accepts a geohash without looking at its characters and logs it; the index then
refuses it, and so does every later restart. -/
theorem build_after_set_lost_fails :
    (Db.call sampleLib { storage := {} } sampleCtx (.request (setLost "fleet" "truck"))).1.isOk =
        false ∧
      (build sampleLib sampleCtx
        { entries := (Db.run sampleLib { storage := {} }
            [(sampleCtx, .request (setLost "fleet" "truck"))]).storage.entries } {}).1.isOk =
        false :=
  ⟨rfl, rfl⟩

end LatLng.Core
