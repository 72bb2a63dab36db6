import LatLng.Core.Intent

/-! A committed write: what it adds to the log and what it does to the view. -/

namespace LatLng.Core

open Geo Geofence Storage List

variable {lib : Lib}

theorem Store.view_applyPlanned (s : Store) (planned : List PreparedMutation) :
    (s.applyPlanned planned).view = s.view := by
  have hdefs : ∀ r : Registry,
      (planned.foldl Registry.applyPreparedMutation r).channels.defs = r.channels.defs ∧
        (planned.foldl Registry.applyPreparedMutation r).hooks.defs = r.hooks.defs := by
    induction planned with
    | nil => exact fun r => ⟨rfl, rfl⟩
    | cons p planned ih =>
      intro r
      obtain ⟨hc, hh⟩ := ih (r.applyPreparedMutation p)
      exact ⟨hc.trans (r.defs_applyPreparedMutation_channels p),
        hh.trans (r.defs_applyPreparedMutation_hooks p)⟩
  obtain ⟨hc, hh⟩ := hdefs s.geofences
  rw [Store.view, Store.view, Store.applyPlanned]
  rw [hc, hh]

variable {w : Write} {s : Store}

theorem Write.apply_of_error {e : CoreError} (h : (w.effect.apply lib s).1 = .error e) :
    w.apply lib s = (.error e, (w.effect.apply lib s).2) := by
  rw [Write.apply]
  rcases hr : w.effect.apply lib s with ⟨r, s'⟩
  rw [hr] at h
  subst h
  rfl

theorem Write.apply_of_ok {answer : Answer} (h : (w.effect.apply lib s).1 = .ok answer) :
    (w.apply lib s).1 = w.reply answer ∧
      (w.apply lib s).2.collections = (w.effect.apply lib s).2.collections ∧
      (w.apply lib s).2.view = (w.effect.apply lib s).2.view := by
  rw [Write.apply]
  rcases hr : w.effect.apply lib s with ⟨r, s'⟩
  rw [hr] at h
  subst h
  dsimp only
  split
  · exact ⟨rfl, rfl, rfl⟩
  · exact ⟨rfl, rfl, s'.view_applyPlanned w.planned⟩

variable {aim : Aim}

theorem Intends.error {commands : List Command} {effect : Effect}
    (h : Intends lib s.view aim commands effect) (hidx : effect.indexable lib = false) :
    ∃ e, (effect.apply lib s).1 = .error (.index e) := by
  have hmutate : ∀ {c : String} {m : Mutation}, m.indexable lib = false →
      m.finds (s.ensureCollectionCell c).objects = true →
      ∃ e, ((Effect.mutate c m).apply lib s).1 = .error (.index e) := by
    intro c m hm hfinds
    obtain ⟨e, he⟩ := Mutation.apply_of_not_indexable (s.ensureCollectionCell c) hm hfinds
    rw [Effect.apply]
    rcases hr : m.apply lib (s.ensureCollectionCell c) with ⟨r, cell⟩
    rw [hr] at he
    subst he
    exact ⟨e, rfl⟩
  have hfound : ∀ {c id : String} {o : Object}, s.view.get c id = some o →
      (s.ensureCollectionCell c).objects[id]?.isSome = true := by
    intro c id o hget
    obtain ⟨objects, hc, hid⟩ := Option.bind_eq_some_iff.1 hget
    rw [Store.objects_ensureCollectionCell, hc, Option.getD_some, hid]
    rfl
  cases h with
  | set record haim => exact hmutate (m := .upsert record.toObject) hidx rfl
  | jset hget hgeo hedit haim | jdel hget hgeo hedit haim =>
    exact hmutate (m := .replaceGeo _ _ _) hidx (hfound hget)
  | _ => cases hidx

theorem Write.Intended.error (h : w.Intended lib s.view aim)
    (hidx : w.effect.indexable lib = false) :
    ∃ e, w.apply lib s = (.error (.index e), (w.effect.apply lib s).2) := by
  obtain ⟨e, he⟩ := h.intends.error hidx
  exact ⟨e, Write.apply_of_error he⟩

theorem Write.Intended.ok (h : w.Intended lib s.view aim) (hidx : w.effect.indexable lib)
    (now : Nat) :
    ∃ answer, (w.apply lib s).1 = .ok answer ∧
      (w.apply lib s).2.view = w.batch.commands.foldl (View.apply lib now) s.view := by
  obtain ⟨⟨a, ha, hfound⟩, hview⟩ := h.intends.view hidx now
  obtain ⟨hreply, -, hview'⟩ := Write.apply_of_ok ha
  obtain ⟨b, hb⟩ := h.replies a hfound
  exact ⟨b, hreply.trans hb, hview'.trans hview⟩

/-! ### The invariant of the collections -/

namespace Store.Keyed

variable {s : Store}

variable (lib) in
theorem effect (h : s.Keyed) (effect : Effect) : (effect.apply lib s).2.Keyed :=
  ((Collection.keyed_kept lib).effect h effect).same

variable (lib) in
theorem write (h : s.Keyed) (w : Write) : (w.apply lib s).2.Keyed :=
  ((Collection.keyed_kept lib).write h w).same

variable (lib) in
theorem applyPersistedEntries (h : s.Keyed) (now : Nat) (entries : List StorageEntry) :
    (applyPersistedEntries lib now s entries).2.Keyed :=
  ((Collection.keyed_kept lib).applyPersistedEntries h now entries).same

end Store.Keyed

theorem Store.keyed_empty : ({} : Store).Keyed := Store.Each.empty

theorem Store.keyed_clear (s : Store) : s.clear.Keyed := Store.Each.clear s

variable {ctx : Ctx} {db : Db}

theorem build_empty {storage : LogStore} {config : Config} (hempty : storage.entries = [])
    (hbuild : (build lib ctx storage config).1 = .ok db) :
    db.storage = storage.fault.2 ∧ db.Keyed ∧ db.view = {} ∧ db.nextSequence = 0 := by
  have hview : (({} : Store).gcCollections ctx.nowMs).view = {} := by
    simp [Store.gcCollections, Store.view, FenceTable.defs]
  obtain ⟨s, hreplay, rfl⟩ := build_eq_ok hbuild
  rw [hempty] at hreplay ⊢
  cases hreplay
  exact ⟨rfl, Store.keyed_empty.gcCollections ctx.nowMs, hview, rfl⟩

/-! ### The two halves of a commit -/

variable (lib) in
def Db.Persisted (db : Db) (ctx : Ctx) (batch : Batch) (db' : Db) : Prop :=
  (db.storage.storesCommandLog = false ∧ db.Unlogged db') ∨
  (db.storage.storesCommandLog = true ∧ ∃ entries, db.Logged entries db' ∧
    encodeEntriesForSequences lib ctx.nowNs
      (batch.numbered lib (range' (db.nextSequence + 1) batch.count))
      (range' (db.nextSequence + 1) batch.count) = .ok entries)

variable (lib) in
theorem Db.commit_cases (db : Db) (ctx : Ctx) (w : Write) :
    (∃ e, (db.commit lib ctx w).1 = .error e ∧ db.Unlogged (db.commit lib ctx w).2 ∧
      (db.persist lib ctx w.batch).1 = .error e) ∨
    (∃ db', db.Persisted lib ctx w.batch db' ∧
      db.commit lib ctx w =
        ((w.apply lib db.toStore).1, { db' with toStore := (w.apply lib db.toStore).2 })) := by
  have hfinish : ∀ {n : List Nat} {db' : Db}, db.persist lib ctx w.batch = (.ok n, db') →
      db'.toStore = db.toStore → db.commit lib ctx w =
        ((w.apply lib db.toStore).1, { db' with toStore := (w.apply lib db.toStore).2 }) := by
    intro n db' hp hstore
    rw [Db.commit, hp]
    dsimp only
    rw [hstore]
  have hcases := db.persist_cases lib ctx w.batch
  rcases hp : db.persist lib ctx w.batch with ⟨r, db'⟩
  rw [hp] at hcases
  rcases hcases with ⟨e, he, hun⟩ | ⟨hs, hok, hun⟩ | ⟨hs, hok, entries, hlogged, hencode⟩
  · dsimp only at he hun
    subst he
    refine .inl ⟨e, ?_⟩
    rw [Db.commit, hp]
    exact ⟨rfl, hun, rfl⟩
  · dsimp only at hok hun
    subst hok
    exact .inr ⟨db', .inl ⟨hs, hun⟩, hfinish hp hun.store⟩
  · dsimp only at hok hlogged
    subst hok
    exact .inr ⟨db', .inr ⟨hs, entries, hlogged, hencode⟩, hfinish hp hlogged.store⟩

variable {batch : Batch}

theorem Db.persist_error (hjson : lib.codec.Total)
    {e : CoreError} (h : (db.persist lib ctx batch).1 = .error e) : ∃ e', e = .storage e' := by
  have happend : ∀ {db : Db} {records : List LogRecord} {sequences : List Nat},
      (db.appendNumbered lib ctx.nowNs records sequences).1 = .error e → ∃ e', e = .storage e' := by
    intro db records sequences h
    obtain ⟨entries, hentries⟩ := encodeEntries_total hjson ctx.nowNs records sequences
    rw [Db.appendNumbered, hentries] at h
    dsimp only at h
    rcases hs : db.storage.appendBatch entries with ⟨e' | _, storage⟩
    · rw [hs] at h
      cases h
      exact ⟨e', rfl⟩
    · rw [hs] at h
      cases h
  cases batch with
  | command c webhooks =>
    rw [Db.persist, Db.persistCommandBatch] at h
    dsimp only [Db.reserveSequences] at h
    split at h
    · cases h
    · exact happend h
  | records rs =>
    rw [Db.persist, Db.appendLogRecords] at h
    dsimp only [Db.reserveSequences] at h
    split at h
    · cases h
    · split at h
      · cases h
      · exact happend h

variable (lib) in
theorem Batch.commands_numbered (batch : Batch) (sequences : List Nat) :
    (batch.numbered lib sequences).filterMap LogRecord.command? = batch.commands := by
  cases batch with
  | command c webhooks =>
    -- everything after the command is a webhook job
    have hjobs : ∀ records : List LogRecord, (∀ r ∈ records, r.command? = none) →
        (LogRecord.command c :: records).filterMap LogRecord.command? = [c] := by
      intro records hr
      rw [filterMap_cons, filterMap_eq_nil_iff.2 hr]
      rfl
    refine hjobs _ fun record hr => ?_
    obtain ⟨i, hi, rfl⟩ := mem_mapIdx.1 hr
    rfl
  | records rs => rfl

variable {db' : Db}

theorem Db.Persisted.log_ne (h : db.Persisted lib ctx batch db')
    (hstores : db.storage.storesCommandLog)
    (hne : batch.commands ≠ []) : db'.storage.entries ≠ db.storage.entries := by
  rcases h with ⟨hno, -⟩ | ⟨-, entries, hlogged, hencode⟩
  · rw [hstores] at hno
    cases hno
  · rw [hlogged.log]
    intro hnil
    have hentries : entries = [] := append_right_eq_self.1 hnil
    subst hentries
    have hseq := sequence_encodeEntries (by rw [length_range', batch.length_numbered]) hencode
    have hcount : batch.count = 0 := by
      have := congrArg length hseq
      rw [length_range'] at this
      exact this.symm
    apply hne
    rw [← batch.commands_numbered lib (range' (db.nextSequence + 1) batch.count),
      length_eq_zero_iff.1 ((batch.length_numbered lib _).trans hcount)]
    rfl

theorem foldl_applyRecord (now : Nat) (records : List LogRecord) (v : View) :
    records.foldl (View.applyRecord lib now) v =
      (records.filterMap LogRecord.command?).foldl (View.apply lib now) v := by
  induction records generalizing v with
  | nil => rfl
  | cons r rs ih =>
    cases r with
    | command c => exact ih _
    | _ => exact ih v

variable {records : List LogRecord}

theorem replayable_of_commands (h : ∀ c ∈ records.filterMap LogRecord.command?, c.Replayable lib) :
    ∀ r ∈ records, r.Replayable lib := by
  intro r hr
  cases r with
  | command c => exact h c (mem_filterMap.2 ⟨_, hr, rfl⟩)
  | _ => trivial

variable (lib) in
/-- What the plan appends, if it appends anything, is read back as it was written. -/
def Plan.Readable (db : Db) (plan : Plan) : Prop :=
  ∀ w, plan = .write w →
    ∀ record ∈ w.batch.numbered lib (range' (db.nextSequence + 1) w.batch.count), record.Readable lib

theorem Plan.Readable.of_lossless (hcodec : lib.codec.Lossless) (plan : Plan) :
    plan.Readable lib db := fun _ _ _ _ _ => decodeLogRecord_of_toJson hcodec

/-- An invariant is kept by a plan that stores a geometry the index takes, once a refused append
and a write that is logged keep it. -/
theorem Plan.Intended.keeps {I : Db → Prop} {plan : Plan} {aim : Aim}
    (hplan : plan.Intended lib db.view aim)
    (hres : aim = .plain ∨ ∀ e, (db.finish lib ctx plan).1 ≠ .error (.index e)) (h : I db)
    (hunlogged : ∀ db', db.Unlogged db' → I db')
    (hwrite : ∀ (w : Write) db', plan = .write w → w.Intended lib db.view aim → w.effect.indexable lib →
      db.Persisted lib ctx w.batch db' →
      I { db' with toStore := (w.apply lib db.toStore).2 }) :
    I (db.finish lib ctx plan).2 := by
  cases plan with
  | done result => exact h
  | write w =>
    rw [Db.finish] at hres ⊢
    rcases db.commit_cases lib ctx w with ⟨e, -, hun, -⟩ | ⟨db', hp, hcommit⟩
    · exact hunlogged _ hun
    rw [hcommit] at hres ⊢
    cases hidx : w.effect.indexable lib with
    | true => exact hwrite w db' rfl hplan hidx hp
    | false =>
      rcases hres with rfl | hres
      · cases hidx.symm.trans hplan.intends.indexable_of_plain
      · obtain ⟨e, he⟩ := hplan.error hidx
        exact absurd (congrArg Prod.fst he) (hres e)

/-! ### Logs that can be replayed -/

variable (lib) in
structure Replays (entries : List StorageEntry) (v : View) : Prop where
  positive : ∀ entry ∈ entries, 0 < entry.sequence
  records : ∃ records, Holds lib entries records ∧ (∀ r ∈ records, r.Replayable lib) ∧
    ∀ now, records.foldl (View.applyRecord lib now) {} = v

theorem Replays.nil : Replays lib [] {} where
  positive := fun _ h => absurd h not_mem_nil
  records := ⟨[], rfl, fun _ h => absurd h not_mem_nil, fun _ => rfl⟩

theorem Replays.replayLog {entries : List StorageEntry} {v : View} (h : Replays lib entries v)
    (now : Nat) : ∃ s, replayLog lib now entries = .ok s ∧ s.view = v := by
  obtain ⟨records, hholds, hreplay, hfold⟩ := h.records
  obtain ⟨s, hs, hview⟩ := replayLog_ok now h.positive hholds hreplay
  exact ⟨s, hs, hview.trans (hfold now)⟩

theorem Replays.append {entries batch : List StorageEntry} {v v' : View} (h : Replays lib entries v)
    (hpositive : ∀ entry ∈ batch, 0 < entry.sequence) (hholds : Holds lib batch records)
    (hreplay : ∀ c ∈ records.filterMap LogRecord.command?, c.Replayable lib)
    (hfold : ∀ now, (records.filterMap LogRecord.command?).foldl (View.apply lib now) v = v') :
    Replays lib (entries ++ batch) v' := by
  obtain ⟨old, hold, holdReplay, holdFold⟩ := h.records
  refine ⟨?_, old ++ records, hold.append hholds, ?_, ?_⟩
  · intro entry he
    rcases mem_append.1 he with he | he
    · exact h.positive entry he
    · exact hpositive entry he
  · intro r hr
    rcases mem_append.1 hr with hr | hr
    · exact holdReplay r hr
    · exact replayable_of_commands hreplay r hr
  · intro now
    rw [foldl_append, holdFold, foldl_applyRecord, hfold]

theorem Db.Logged.positive {entries : List StorageEntry}
    (h : db.Logged entries db') : ∀ entry ∈ entries, 0 < entry.sequence := by
  intro entry he
  have hmem : entry.sequence ∈ range' (db.nextSequence + 1) entries.length := by
    rw [← h.numbered]
    exact mem_map_of_mem he
  have := (mem_range'_1.1 hmem).1
  omega

theorem Replays.persisted {v v' : View} (h : Replays lib db.storage.entries v)
    (hstores : db.storage.storesCommandLog) (hp : db.Persisted lib ctx batch db')
    (hread : ∀ record ∈ batch.numbered lib (range' (db.nextSequence + 1) batch.count),
      record.Readable lib) (hreplay : ∀ c ∈ batch.commands, c.Replayable lib)
    (hfold : ∀ now, batch.commands.foldl (View.apply lib now) v = v') :
    Replays lib db'.storage.entries v' ∧ db'.storage.storesCommandLog = true := by
  rcases hp with ⟨hno, -⟩ | ⟨-, entries, hlogged, hencode⟩
  · rw [hstores] at hno
    cases hno
  · have hholds := holds_encodeEntries (by rw [length_range', batch.length_numbered]) hencode hread
    have hcommands := batch.commands_numbered lib
      (range' (db.nextSequence + 1) batch.count)
    rw [hlogged.log, hlogged.stores]
    exact ⟨h.append hlogged.positive hholds (by rwa [hcommands]) (by rwa [hcommands]), hstores⟩

/-! ### Appending in two steps -/

/-- The numbers that a write has reserved: consecutive ones behind the end of the log. -/
structure Reservation (db : Db) (w : Write) (sequences : List Nat) : Prop where
  range : sequences = range' (sequences.headD 0) w.batch.count
  pos : 0 < w.batch.count
  passed : sequences.headD 0 + w.batch.count ≤ db.nextSequence + 1
  ahead : ∀ last ∈ db.storage.entries.getLast?, last.sequence < sequences.headD 0

namespace Reservation

variable {w : Write} {sequences : List Nat}

theorem next (hpos : 0 < w.batch.count)
    (hcounted : ∀ last ∈ db.storage.entries.getLast?, last.sequence ≤ db.nextSequence) :
    (range' (db.nextSequence + 1) w.batch.count).headD 0 = db.nextSequence + 1 ∧
      Reservation { db with nextSequence := db.nextSequence + w.batch.count } w
        (range' (db.nextSequence + 1) w.batch.count) := by
  have hhead : (range' (db.nextSequence + 1) w.batch.count).headD 0 = db.nextSequence + 1 := by
    obtain ⟨count, hcount⟩ := Nat.exists_eq_succ_of_ne_zero hpos.ne'
    rw [hcount, range'_succ]
    rfl
  refine ⟨hhead, by rw [hhead], hpos, ?_, ?_⟩
  · rw [hhead]
    exact (Nat.add_right_comm _ _ _).le
  · intro last hlast
    rw [hhead]
    exact Nat.lt_succ_of_le (hcounted last hlast)

variable (h : Reservation db w sequences)

include h

theorem mono (hstorage : db'.storage = db.storage) (hnext : db.nextSequence ≤ db'.nextSequence) :
    Reservation db' w sequences :=
  ⟨h.range, h.pos, h.passed.trans (Nat.succ_le_succ hnext), hstorage ▸ h.ahead⟩

theorem entries {nowNs : Nat} {entries : List StorageEntry}
    (hencode : encodeEntriesForSequences lib nowNs (w.batch.numbered lib sequences) sequences =
      .ok entries) :
    Increasing entries ∧ ∀ entry ∈ entries, sequences.headD 0 ≤ entry.sequence ∧
      entry.sequence < sequences.headD 0 + w.batch.count := by
  have hrange := h.range
  have hlen : sequences.length = (w.batch.numbered lib sequences).length := by
    rw [hrange, w.batch.length_numbered, length_range']
  have hseq := sequence_encodeEntries hlen hencode
  constructor
  · have hpair : (entries.map StorageEntry.sequence).Pairwise (· < ·) := by
      rw [hseq, hrange]
      exact pairwise_lt_range'
    exact pairwise_map.1 hpair
  · intro entry he
    have hin : entry.sequence ∈ sequences := hseq ▸ mem_map_of_mem he
    rw [hrange] at hin
    exact mem_range'_1.1 hin

theorem append (hjson : lib.codec.Total)
    (hfaults : db.storage.faults = []) (hopen : db.storage.closed = false) (nowNs : Nat) :
    ∃ entries,
      encodeEntriesForSequences lib nowNs (w.batch.numbered lib sequences) sequences = .ok entries ∧
      db.appendNumbered lib nowNs (w.batch.numbered lib sequences) sequences = (.ok sequences,
        { db with storage := { db.storage with entries := db.storage.entries ++ entries } }) ∧
      ∀ last ∈ (db.storage.entries ++ entries).getLast?,
        last.sequence < sequences.headD 0 + w.batch.count := by
  obtain ⟨entries, hencode⟩ := encodeEntries_total hjson nowNs (w.batch.numbered lib sequences)
    sequences
  obtain ⟨hinc, hmem⟩ := h.entries hencode
  have hafter : After db.storage.entries.getLast? entries :=
    fun last hlast entry he => (h.ahead last hlast).trans_le (hmem entry he).1
  have happend := LogStore.appendBatch_of_no_faults hfaults hopen hinc hafter
  refine ⟨entries, hencode, by simp only [Db.appendNumbered, hencode, happend], ?_⟩
  intro last hlast
  rw [getLast?_append] at hlast
  cases hentries : entries.getLast? with
  | none =>
    rw [hentries] at hlast
    exact (h.ahead last hlast).trans_le (Nat.le_add_right _ _)
  | some entry =>
    rw [hentries] at hlast
    cases hlast
    exact (hmem last (mem_of_getLast? hentries)).2

end Reservation

end LatLng.Core
