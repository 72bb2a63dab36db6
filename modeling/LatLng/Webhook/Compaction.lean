import LatLng.Core.Reachable
import LatLng.Core.Restart
import LatLng.Core.RoundTrip
import LatLng.Webhook.Materialize
import LatLng.Webhook.Snapshot

/-! The three ways to compact the log, and what a server that starts from the new log has lost. -/

namespace LatLng.Webhook

open LatLng.Core Geofence Storage LatLng.Lib List

inductive CompactionPath where
  | core
  /-- The HTTP handler of a server with or without a webhook queue. -/
  | http (queue : Option Queue)
  | capnp

def CompactionPath.queue : CompactionPath → Queue
  | .http (some queue) => queue
  | _ => ∅

variable (lib : Lib)

def Db.compact (db : Db) (ctx : Ctx) : CompactionPath → Except CoreError CompactionResult × Db
  | .core => db.aofshrink lib ctx
  | .http (some queue) =>
    let queueRecords := queue.snapshotLogRecords
    db.rewriteLogSnapshot lib ctx (db.snapshotBaseLogRecords ctx ++ queueRecords)
  | .http none => db.aofshrink lib ctx
  | .capnp => db.aofshrink lib ctx

def CompactionPath.records (path : CompactionPath) (db : Db) (ctx : Ctx) : List LogRecord :=
  db.snapshotBaseLogRecords ctx ++ path.queue.snapshotLogRecords

variable {lib}

theorem compact_eq (db : Db) (ctx : Ctx) (path : CompactionPath) :
    Db.compact lib db ctx path = db.rewriteLogSnapshot lib ctx (path.records db ctx) := by
  have hnone : db.snapshotBaseLogRecords ctx ++ (∅ : Queue).snapshotLogRecords =
      db.snapshotBaseLogRecords ctx := append_nil _
  cases path with
  | http queue =>
    cases queue with
    | none => exact congrArg (db.rewriteLogSnapshot lib ctx) hnone.symm
    | some queue => rfl
  | _ => exact congrArg (db.rewriteLogSnapshot lib ctx) hnone.symm

/-! ### The records of the queue -/

theorem snapshotLogRecords_command {q : Queue} {record : LogRecord}
    (h : record ∈ q.snapshotLogRecords) : record.command? = none := by
  obtain ⟨job, -, hrecord⟩ := mem_flatMap.1 h
  rcases mem_cons.1 hrecord with rfl | hrecord
  · rfl
  · split at hrecord
    · cases mem_singleton.1 hrecord
      rfl
    · cases hrecord

theorem replayable_of_command {record : LogRecord} (h : record.command? = none) :
    record.Replayable lib := by
  cases record with
  | command c => cases h
  | _ => trivial

/-! ### Reading the queue from a rewritten log -/

theorem Queue.replay_of_holds {entries : List StorageEntry} {records : List LogRecord}
    (h : Holds lib entries records) (q : Queue) (last : Nat) :
    ∃ numbered, numbered.map Prod.snd = records ∧
      q.replay lib entries last = (.ok (lastOf entries last), q.applyRecords numbered) := by
  induction records generalizing entries q last with
  | nil =>
    cases map_eq_nil_iff.1 h
    exact ⟨[], rfl, rfl⟩
  | cons record records ih =>
    obtain ⟨entry, rest, rfl, hentry, hrest⟩ := h.cons
    obtain ⟨numbered, hrecords, hreplay⟩ :=
      ih hrest (q.applyLogRecord entry.sequence record) entry.sequence
    refine ⟨(entry.sequence, record) :: numbered, by rw [map_cons, hrecords], ?_⟩
    rw [Queue.replay, hentry, lastOf_cons]
    exact hreplay

theorem Queue.applyRecords_commands {numbered : List (Nat × LogRecord)}
    (h : ∀ record ∈ numbered.map Prod.snd, ∃ c, record = .command c) (q : Queue) :
    q.applyRecords numbered = q := by
  induction numbered with
  | nil => rfl
  | cons r numbered ih =>
    obtain ⟨⟨c, hc⟩, hrest⟩ := forall_mem_cons.1 h
    have hsame : q.applyLogRecord r.1 r.2 = q := by rw [hc]; rfl
    rw [applyRecords, foldl_cons, hsame]
    exact ih hrest

theorem rebuild_of_holds {db : Db} (hfaults : db.storage.faults = [])
    (hpositive : ∀ entry ∈ db.storage.entries, 0 < entry.sequence) {commands : List LogRecord}
    (hcommands : ∀ record ∈ commands, ∃ c, record = .command c) {q : Queue}
    (hholds : Holds lib db.storage.entries (commands ++ q.snapshotLogRecords)) (nowMs : Nat) :
    ∃ s, Outbox.rebuildWebhookQueueFromLog lib db nowMs = .ok s ∧
      s.queue.undelivered = q.undelivered := by
  have htail : tailOf db.storage.entries 0 = db.storage.entries := tailOf_eq_self hpositive
  obtain ⟨numbered, hrecords, hreplay⟩ := Queue.replay_of_holds hholds ∅ 0
  obtain ⟨first, rest, rfl, hfirst, hrest⟩ := map_eq_append_iff.1 hrecords
  rw [Outbox.rebuildWebhookQueueFromLog, LogStore.read_of_no_faults hfaults]
  dsimp only
  rw [htail, hreplay]
  refine ⟨_, rfl, ?_⟩
  rw [← hfirst] at hcommands
  rw [Queue.applyRecords_append, Queue.applyRecords_commands hcommands]
  exact Queue.undelivered_snapshot hrest

/-! ### What a compaction keeps -/

/-- A server that starts from the log of `db'` has the collections, unexpired objects, channels
and hooks of `db` and the jobs that the log of `db` holds. -/
def KeptAfterRestart (lib : Lib) (ctx : Ctx) (db db' : Db) : Prop :=
  ∀ later config, ctx.nowMs ≤ later.nowMs → ∃ restarted,
    (build lib later db'.storage config).1 = .ok restarted ∧
    restarted.view.live later.nowMs = db.view.live later.nowMs ∧
    ∃ old new, Outbox.rebuildWebhookQueueFromLog lib db ctx.nowMs = .ok old ∧
      Outbox.rebuildWebhookQueueFromLog lib restarted later.nowMs = .ok new ∧
      new.queue.undelivered = old.queue.undelivered

theorem CompactionPath.view_records {db : Db} (h : db.Wellformed) (ctx : Ctx)
    (path : CompactionPath) (now : Nat) :
    (path.records db ctx).foldl (View.applyRecord lib now) {} = db.view.live ctx.nowMs := by
  have hjobs : (path.queue.snapshotLogRecords).filterMap LogRecord.command? = [] :=
    filterMap_eq_nil_iff.2 fun _ hr => snapshotLogRecords_command hr
  rw [records, foldl_append, foldl_applyRecord now path.queue.snapshotLogRecords, hjobs,
    foldl_applyRecord_of_absolute Db.snapshotBaseLogRecords_absolute {} now 0,
    Db.snapshotBaseLogRecords_view h.keyed h.evaluable, foldl_nil]

theorem CompactionPath.replayable_iff (path : CompactionPath) (db : Db) (ctx : Ctx) :
    (∀ record ∈ path.records db ctx, record.Replayable lib) ↔ db.Indexed lib ctx.nowMs := by
  rw [records, forall_mem_append]
  constructor
  · rintro ⟨hbase, -⟩
    refine Store.indexed_of_snapshot fun record hr => hbase record ?_
    exact mem_append_left _ (mem_append_left _ hr)
  · intro h
    exact ⟨Db.snapshotBaseLogRecords_replayable h,
      fun record hr => replayable_of_command (snapshotLogRecords_command hr)⟩

/-- A successful compaction keeps what matters exactly if every unexpired object can be indexed
and the queue that it writes out has the jobs of the log. Only the HTTP handler of a server with a
queue writes one. -/
theorem compaction_preserves_iff {parse : List UInt8 → Option Geo.Json}
    (hcodec : lib.codec.Derived lib.toGeoLib parse)
    {ctx₀ ctx : Ctx} {storage : LogStore} {config : Config} {db₀ db : Db}
    {calls : List (Ctx × Call)} {path : CompactionPath}
    (hbuild : (build lib ctx₀ storage config).1 = .ok db₀) (hrun : db₀.run lib calls = db)
    (hstores : db.storage.storesCommandLog) (hfaults : db.storage.faults = [])
    (hfinite : ∀ record ∈ path.records db ctx, ∀ x ∈ record.numbers lib, x.Finite)
    (hok : (Db.compact lib db ctx path).1.isOk) :
    KeptAfterRestart lib ctx db (Db.compact lib db ctx path).2 ↔
      db.Indexed lib ctx.nowMs ∧
        ∃ old, Outbox.rebuildWebhookQueueFromLog lib db ctx.nowMs = .ok old ∧
          path.queue.undelivered = old.queue.undelivered := by
  have hwell : db.Wellformed := hrun ▸ Db.wellformed_run hbuild calls
  have hread : ∀ record ∈ path.records db ctx, record.Readable lib :=
    fun record hr payload hjson => (hcodec.decode_iff hjson).2 (hfinite record hr)
  have hfaults' := @Db.faults_rewriteLogSnapshot lib db hfaults ctx (path.records db ctx)
  rw [compact_eq] at hok ⊢
  rcases db.rewriteLogSnapshot_cases lib ctx (path.records db ctx) with ⟨-, hno⟩ | ⟨-, hnew⟩
  · rw [hno hok] at hstores
    cases hstores
  generalize (db.rewriteLogSnapshot lib ctx (path.records db ctx)).2 = db' at hnew hfaults'
  have hholds := hnew.holds hread
  -- the queue of a server on the new log is the one that the compaction wrote out
  have hqueue : ∀ {restarted : Db}, restarted.storage = db'.storage → ∀ nowMs,
      ∃ new, Outbox.rebuildWebhookQueueFromLog lib restarted nowMs = .ok new ∧
        new.queue.undelivered = path.queue.undelivered := by
    intro restarted hsame nowMs
    rw [← hsame] at hholds hfaults'
    refine rebuild_of_holds hfaults' ?_ (fun _ h => (Db.mem_snapshotBaseLogRecords h).2) hholds
      nowMs
    rw [hsame]
    exact hnew.positive
  constructor
  · intro hkept
    obtain ⟨restarted, hrestart, -, old, new, hold, hrebuild, hjobs⟩ := hkept ctx config le_rfl
    have hlog := (build_isOk_iff ctx hfaults' config).1 ⟨restarted, hrestart⟩
    have hreplay := (hholds.restorableLog_iff hnew.positive).1 hlog
    obtain ⟨db₁, hdb₁, hsame, -⟩ := build_of_holds hfaults' config hholds hnew.positive hreplay
    cases hrestart.symm.trans hdb₁
    obtain ⟨new', hrebuild', hjobs'⟩ := hqueue hsame ctx.nowMs
    cases hrebuild.symm.trans hrebuild'
    exact ⟨(path.replayable_iff db ctx).1 hreplay, old, hold, hjobs'.symm.trans hjobs⟩
  · rintro ⟨hindexed, old, hold, hjobs⟩ later config' hle
    have hreplay := (path.replayable_iff db ctx).2 hindexed
    obtain ⟨restarted, hrestart, hsame, htrim⟩ :=
      build_of_holds hfaults' config' hholds hnew.positive hreplay
    obtain ⟨new, hrebuild, hjobs'⟩ := hqueue hsame later.nowMs
    refine ⟨restarted, hrestart, ?_, old, new, hold, hrebuild, hjobs'.trans hjobs⟩
    rw [path.view_records hwell] at htrim
    rw [htrim.live_eq, View.live_live hle]

namespace Sample

open Core.Sample

def compactToJson : LogRecord → Except String (List UInt8)
  | .command (.createCollection "fleet") => .ok [0]
  | .command (.setPersisted ⟨"fleet", "truck", .string "idle", [], none⟩) => .ok [2]
  | .webhookEnqueue
      { jobId := "jobjob:1"
        event :=
          { command := .set, detect := .inside, collection := "fleet", id := "truck"
            object := .string "idle", fields, timestampNs := 0, eventId := none
            jobId := some "jobjob:1", hook := some "gate", group := none, nearby := none }
        endpoint := "http://localhost", attemptsUsed := 0, maxAttempts := 2, nextAttemptAtMs := 0 } =>
    if fields.isEmpty then .ok [1] else .error "not a sample record"
  | _ => .error "not a sample record"

def compactDocument : List UInt8 → Option Geo.Json
  | [0] => some ((logRecordFormat sampleLib.toGeoLib).encode (.command (.createCollection "fleet")))
  | [1] => some ((logRecordFormat sampleLib.toGeoLib).encode (.webhookEnqueue jobRecord))
  | [2] => some ((logRecordFormat sampleLib.toGeoLib).encode (idle "fleet" "truck"))
  | _ => none

def compactLib : Lib :=
  { sampleLib with
    codec :=
      { toJson := compactToJson
        jsonRecord := fun payload =>
          (compactDocument payload).bind (logRecordFormat sampleLib.toGeoLib).decode
        bincodeRecord := fun _ => none
        jsonCommand := fun payload =>
          (compactDocument payload).bind (commandFormat sampleLib.toGeoLib).decode
        bincodeCommand := fun _ => .error "not a sample record" } }

theorem compactLib_derived : compactLib.codec.Derived compactLib.toGeoLib compactDocument where
  toJson {record payload} h := by
    change compactToJson record = .ok payload at h
    unfold compactToJson at h
    split at h
    · cases h
      rfl
    · cases h
      rfl
    next fields =>
      split at h
      next hempty =>
        cases h
        rw [Std.ExtTreeMap.isEmpty_iff.1 hempty]
        rfl
      · cases h
    · cases h
  jsonRecord _ := rfl
  jsonCommand _ := rfl
  bincodeRecord _ := rfl
  bincodeCommand _ := ⟨_, rfl⟩

def compactStorage : LogStore where
  entries := [{ sequence := 1, timestampNs := 0, command := [0] },
    { sequence := 2, timestampNs := 0, command := [2] },
    { sequence := 3, timestampNs := 0, command := [1] }]

def compactPath : CompactionPath := .http (some ((∅ : Queue).applyEnqueue 3 jobRecord))

end Sample

open Sample Core.Sample in
theorem compaction_of_current_queue :
    ∃ db, (build compactLib sampleCtx compactStorage {}).1 = .ok db ∧
      (db.getObject "fleet" "truck").isSome ∧
      KeptAfterRestart compactLib sampleCtx db (Db.compact compactLib db sampleCtx compactPath).2 := by
  obtain ⟨db, hbuild, hsome, hstores, hfaults, hok, hrecords, hqueue⟩ :
      ∃ db, (build compactLib sampleCtx compactStorage {}).1 = .ok db ∧
        (db.getObject "fleet" "truck").isSome = true ∧ db.storage.storesCommandLog = true ∧
        db.storage.faults = [] ∧ (Db.compact compactLib db sampleCtx compactPath).1.isOk = true ∧
        compactPath.records db sampleCtx = [.command (.createCollection "fleet"),
          idle "fleet" "truck", .webhookEnqueue jobRecord] ∧
        ∃ old, Outbox.rebuildWebhookQueueFromLog compactLib db sampleCtx.nowMs = .ok old ∧
          compactPath.queue.undelivered = old.queue.undelivered :=
    ⟨_, rfl, rfl, rfl, rfl, rfl, rfl, _, rfl, rfl⟩
  refine ⟨db, hbuild, hsome, (compaction_preserves_iff compactLib_derived hbuild
    (show db.run compactLib [] = db from rfl) hstores hfaults ?_ hok).2 ⟨?_, hqueue⟩⟩
  · rw [hrecords]
    intro record hr x hx
    fin_cases hr <;> cases hx
  · rw [← compactPath.replayable_iff, hrecords]
    intro record hr
    fin_cases hr
    · intro geo hgeo
      cases hgeo
    · rintro geo ⟨⟩
      rfl
    · trivial

open Sample Core.Sample in
/-- A hook has fired and its job is in the log. Only a queue that has read the log would write the
job out: all other compactions answer with success and lose it. -/
theorem job_lost_by_compaction :
    let db := Db.run historyLib { storage := {} } [(sampleCtx, setGate), (sampleCtx, setTruck)]
    ∀ path ∈ [CompactionPath.core, .capnp, .http none, .http (some ∅)],
      (Db.compact historyLib db sampleCtx path).1.isOk = true ∧
      ∃ old restarted new,
        Outbox.rebuildWebhookQueueFromLog historyLib db sampleCtx.nowMs = .ok old ∧
        (build historyLib sampleCtx (Db.compact historyLib db sampleCtx path).2.storage {}).1 =
          .ok restarted ∧
        Outbox.rebuildWebhookQueueFromLog historyLib restarted sampleCtx.nowMs = .ok new ∧
        old.queue.keys = ["jobjob:3"] ∧ new.queue.keys = [] := by
  intro db path hpath
  have hsame : Db.compact historyLib db sampleCtx path =
      Db.compact historyLib db sampleCtx .core := by
    rw [compact_eq, compact_eq]
    simp only [mem_cons, not_mem_nil, or_false] at hpath
    rcases hpath with rfl | rfl | rfl | rfl <;> rfl
  rw [hsame]
  exact ⟨rfl, _, _, _, rfl, rfl, rfl, rfl, rfl⟩

end LatLng.Webhook
