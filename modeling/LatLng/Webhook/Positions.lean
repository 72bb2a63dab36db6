import LatLng.Core.Compact
import LatLng.Webhook.Sample

/-! The numbers of the log over the life of a server: commands, outcomes of deliveries, FLUSHDB,
AOFSHRINK and restarts. -/

namespace LatLng.Webhook

open LatLng.Core Core.Sample LatLng.Lib Storage List
open Webhook.Sample

/-- A server with the numbers of all records ever appended and the ids of all jobs ever enqueued,
oldest first. -/
structure History where
  db : Db
  given : List Nat := []
  jobs : List String := []

inductive HistoryEvent where
  | command (ctx : Ctx) (call : Call)
  | outcome (ctx : Ctx) (config : OutboxConfig) (nowMs : Nat) (job : QueueJob)
      (outcome : DeliveryOutcome)
  | flushdb (ctx : Ctx)
  | aofshrink (ctx : Ctx) (queueRecords : List LogRecord)
  | restart (ctx : Ctx) (config : Config)

variable (lib : Lib)

def enqueuedJob (entry : StorageEntry) : Option String :=
  match decodeLogRecord lib entry.command with
  | .ok (.webhookEnqueue record) => some record.jobId
  | _ => none

namespace History

def append (s : History) (appended db : Db) : History :=
  let added := appended.storage.entries.drop s.db.storage.entries.length
  { db
    given := s.given ++ added.map StorageEntry.sequence
    jobs := s.jobs ++ added.filterMap (enqueuedJob lib) }

def step (event : HistoryEvent) (s : History) : Option History :=
  match event with
  | .command ctx call =>
    if call.writes then
      let db := (s.db.call lib ctx call).2
      some (s.append lib db db)
    else none
  | .outcome ctx config nowMs job outcome =>
    (outcomeRecord config nowMs job outcome).map fun record =>
      let db := (s.db.appendLogRecords lib ctx [record]).2
      s.append lib db db
  | .flushdb ctx =>
    -- the record is appended before the log is cut
    match s.db.ensureWritable with
    | .error _ => some s
    | .ok () =>
      some (s.append lib (s.db.appendLogRecords lib ctx [.command .flushDb]).2
        (s.db.flushdb lib ctx).2)
  | .aofshrink ctx queueRecords =>
    some { s with
      db := (s.db.rewriteLogSnapshot lib ctx
        (s.db.snapshotBaseLogRecords ctx ++ queueRecords)).2 }
  | .restart ctx config =>
    match (build lib ctx s.db.storage config).1 with
    | .error _ => none
    | .ok db => some { s with db }

end History

variable {lib}

/-! ### Jobs are named after their number -/

variable {entry : StorageEntry}

theorem enqueuedJob_issued (hcodec : KeepsJobs lib) (h : Issued lib entry)
    {jobId : String} (hjob : enqueuedJob lib entry = some jobId) :
    jobId = opaqueWebhookJobId lib entry.sequence := by
  obtain ⟨record, hjson, hrecord⟩ := h
  unfold enqueuedJob at hjob
  split at hjob
  next r' hdecode =>
    cases hjob
    rcases hrecord with ⟨c, rfl, -⟩ | ⟨r, rfl, hid, -⟩
    · obtain ⟨c', hc⟩ := hcodec.command hjson hdecode
      cases hc
    · obtain ⟨r'', hr, hsame, -⟩ := hcodec.enqueue hjson hdecode
      cases hr
      exact hsame.trans hid
  · cases hjob

theorem enqueuedJob_outcome (hcodec : KeepsJobs lib) {record : LogRecord}
    (houtcome : IsOutcome record)
    (hjson : lib.codec.toJson record = .ok entry.command) : enqueuedJob lib entry = none := by
  rw [enqueuedJob, hcodec.outcome houtcome hjson]
  cases record with
  | webhookEnqueue r => exact houtcome.elim
  | _ => rfl

theorem enqueuedJob_command (hcodec : KeepsJobs lib) {c : Command}
    (hjson : lib.codec.toJson (.command c) = .ok entry.command) : enqueuedJob lib entry = none := by
  unfold enqueuedJob
  split
  next r hdecode =>
    obtain ⟨c', hc⟩ := hcodec.command hjson hdecode
    cases hc
  · rfl

/-! ### The counter never goes back -/

variable (lib) in
theorem flushdb_log {db : Db} (hw : db.ensureWritable = .ok ()) (ctx : Ctx) :
    (db.flushdb lib ctx).2.nextSequence =
        (db.appendLogRecords lib ctx [.command .flushDb]).2.nextSequence ∧
      (Increasing (db.appendLogRecords lib ctx [.command .flushDb]).2.storage.entries →
        Increasing (db.flushdb lib ctx).2.storage.entries) := by
  unfold Db.flushdb
  rw [hw]
  dsimp only
  split
  next e db' happend =>
    rw [happend]
    exact ⟨rfl, id⟩
  next numbers db' happend =>
    rw [happend]
    refine ⟨rfl, fun hinc => ?_⟩
    show Increasing (db'.storage.snapshot []).2.entries
    rcases db'.storage.snapshot_cases [] with ⟨e, -, hsame⟩ | ⟨-, hlog, -, hnil⟩
    · rw [hsame.entries]
      exact hinc
    · rw [hlog]
      exact hnil

namespace History

variable (lib) in
structure Inv (s : History) : Prop where
  increasing : Increasing s.db.storage.entries
  bounded : ∀ n ∈ s.given, n ≤ s.db.nextSequence
  ordered : s.given.Pairwise (· < ·)
  named : ∀ jobId ∈ s.jobs, ∃ n ∈ s.given, jobId = opaqueWebhookJobId lib n
  distinct : s.jobs.Nodup

/-- The log is rewritten, and the server restarted, only while the log still reaches the last
number that was given out. -/
def LogReaches (event : HistoryEvent) (s : History) : Prop :=
  match event with
  | .aofshrink _ _ => ∀ n ∈ s.given, n ≤ lastSequence s.db.storage.entries
  | .restart _ _ => ∀ n ∈ s.given, n ≤ lastSequence s.db.storage.entries
  | _ => True

variable {s s' : History}

theorem Inv.append (hids : Function.Injective (lib.opaqueWebhookId "job")) (h : s.Inv lib)
    {P : StorageEntry → Prop} {appended db : Db} (hext : s.db.Extends P appended)
    (hjob : ∀ entry, P entry → ∀ jobId, enqueuedJob lib entry = some jobId →
      jobId = opaqueWebhookJobId lib entry.sequence)
    (hnext : appended.nextSequence ≤ db.nextSequence) (hinc : Increasing db.storage.entries) :
    (s.append lib appended db).Inv lib := by
  obtain ⟨added, hlog, hincreasing, hadded⟩ := hext.log
  have hpairs : added.Pairwise fun a b => a.sequence < b.sequence := by
    have hall := hincreasing h.increasing
    rw [hlog] at hall
    exact (pairwise_append.1 hall).2.1
  have hnew : ∀ n ∈ s.given, ∀ m ∈ added.map StorageEntry.sequence, n < m := by
    intro n hn m hm
    obtain ⟨entry, he, rfl⟩ := mem_map.1 hm
    exact (h.bounded n hn).trans_lt (hadded entry he).1
  have hnamed : ∀ jobId ∈ added.filterMap (enqueuedJob lib),
      ∃ m ∈ added.map StorageEntry.sequence, jobId = opaqueWebhookJobId lib m := by
    intro jobId hj
    obtain ⟨entry, he, hsome⟩ := mem_filterMap.1 hj
    exact ⟨_, mem_map_of_mem he, hjob entry (hadded entry he).2.2 jobId hsome⟩
  rw [History.append, hlog, drop_left]
  refine ⟨hinc, fun n hn => ?_, ?_, fun jobId hj => ?_, ?_⟩
  · rcases mem_append.1 hn with hn | hn
    · exact (h.bounded n hn).trans (hext.sequence.trans hnext)
    · obtain ⟨entry, he, rfl⟩ := mem_map.1 hn
      exact (hadded entry he).2.1.trans hnext
  · exact pairwise_append.2 ⟨h.ordered, pairwise_map.2 hpairs, hnew⟩
  · rcases mem_append.1 hj with hj | hj
    · obtain ⟨n, hn, hid⟩ := h.named jobId hj
      exact ⟨n, mem_append_left _ hn, hid⟩
    · obtain ⟨m, hm, hid⟩ := hnamed jobId hj
      exact ⟨m, mem_append_right _ hm, hid⟩
  · refine nodup_append.2 ⟨h.distinct, ?_, ?_⟩
    · refine pairwise_filterMap.2 (hpairs.imp_of_mem ?_)
      intro a b ha hb hlt jobId hja jobId' hjb heq
      rw [hjob a (hadded a ha).2.2 jobId hja, hjob b (hadded b hb).2.2 jobId' hjb] at heq
      exact hlt.ne (opaqueWebhookJobId_injective hids heq)
    · intro jobId hold jobId' hj heq
      obtain ⟨n, hn, rfl⟩ := h.named jobId hold
      obtain ⟨m, hm, rfl⟩ := hnamed jobId' hj
      exact (hnew n hn m hm).ne (opaqueWebhookJobId_injective hids heq)

theorem Inv.step (hcodec : KeepsJobs lib) (hids : Function.Injective (lib.opaqueWebhookId "job"))
    {event : HistoryEvent} (h : s.Inv lib) (hcond : LogReaches event s)
    (hstep : s.step lib event = some s') : s'.Inv lib := by
  cases event with
  | command ctx call =>
    rw [History.step] at hstep
    split at hstep
    next hw =>
      cases hstep
      have hgrows : s.db.Grows lib (s.db.call lib ctx call).2 := Db.Grows.call hw ctx
      obtain ⟨-, -, hinc, -⟩ := hgrows.log
      exact h.append hids hgrows (fun entry he jobId hj => enqueuedJob_issued hcodec he hj) le_rfl
        (hinc h.increasing)
    · cases hstep
  | outcome ctx config nowMs job outcome =>
    obtain ⟨record, hrecord, rfl⟩ := Option.map_eq_some_iff.1 hstep
    have hext := s.db.appendLogRecord_extends lib ctx record
    obtain ⟨-, -, hinc, -⟩ := hext.log
    refine h.append hids hext (fun entry he jobId hj => ?_) le_rfl (hinc h.increasing)
    rw [enqueuedJob_outcome hcodec (isOutcome_outcomeRecord hrecord) he] at hj
    cases hj
  | flushdb ctx =>
    rw [History.step] at hstep
    split at hstep
    · cases hstep
      exact h
    next hw =>
      cases hstep
      have hext := s.db.appendLogRecord_extends lib ctx (.command .flushDb)
      obtain ⟨-, -, hinc, -⟩ := hext.log
      obtain ⟨hnext, hcut⟩ := flushdb_log lib hw ctx
      refine h.append hids hext (fun entry he jobId hj => ?_) hnext.ge (hcut (hinc h.increasing))
      rw [enqueuedJob_command hcodec he] at hj
      cases hj
  | aofshrink ctx queueRecords =>
    cases hstep
    rcases s.db.rewriteLogSnapshot_cases lib ctx (s.db.snapshotBaseLogRecords ctx ++ queueRecords)
      with ⟨hun, -⟩ | ⟨-, hrewritten⟩
    · have hinc := h.increasing
      rw [← hun.log.entries] at hinc
      exact { h with
        increasing := hinc
        bounded := fun n hn => (h.bounded n hn).trans hun.sequence }
    · exact { h with
        increasing := hrewritten.increasing
        bounded := fun n hn => (hcond n hn).trans hrewritten.lastSequence_le }
  | restart ctx config =>
    rw [History.step] at hstep
    split at hstep
    · cases hstep
    next db hbuild =>
      cases hstep
      obtain ⟨hsame, hnext⟩ := build_log hbuild
      have hinc := h.increasing
      rw [← hsame.entries] at hinc
      refine { h with
        increasing := hinc
        bounded := fun n hn => ?_ }
      show n ≤ db.nextSequence
      rw [hnext]
      exact (hcond n hn).trans h.increasing.lastSequence_le_numbered

/-- No number is given twice, and no two jobs get the same id, as long as the log is rewritten and
read back only while it reaches the last number given. -/
theorem positions_never_reused (hcodec : KeepsJobs lib)
    (hids : Function.Injective (lib.opaqueWebhookId "job")) {ctx : Ctx} {storage : LogStore}
    {config : Config} {db : Db} (hempty : storage.entries = [])
    (hbuild : (build lib ctx storage config).1 = .ok db) {events : List HistoryEvent}
    (hmeet : StepsMeet (History.step lib) LogReaches events { db })
    (hrun : runSteps (History.step lib) events { db } = some s) :
    s.given.Pairwise (· < ·) ∧ s.jobs.Nodup := by
  have hstart : Inv lib { db } := by
    obtain ⟨hsame, -⟩ := build_log hbuild
    refine ⟨?_, fun n hn => (nomatch hn), .nil, fun jobId hj => (nomatch hj), .nil⟩
    show Increasing db.storage.entries
    rw [hsame.entries, hempty]
    exact increasing_nil
  have hinv := runSteps_invariant (fun _ _ _ h hcond hstep => Inv.step hcodec hids h hcond hstep)
    hstart hmeet hrun
  exact ⟨hinv.ordered, hinv.distinct⟩

def logReaches (event : HistoryEvent) (s : History) : Bool :=
  match event with
  | .aofshrink _ _ | .restart _ _ =>
    s.given.all fun n => decide (n ≤ lastSequence s.db.storage.entries)
  | _ => true

theorem logReaches_of_check {event : HistoryEvent}
    (h : logReaches event s) : LogReaches event s := by
  cases event with
  | aofshrink ctx queueRecords | restart ctx config =>
    exact fun n hn => of_decide_eq_true (all_eq_true.1 h n hn)
  | _ => trivial

/-- A hook fires, the log is rewritten and read back, and the hook fires again. -/
theorem jobs_around_rewrite_distinct :
    let events : List HistoryEvent := [.command sampleCtx setGate, .command sampleCtx setTruck,
      .aofshrink sampleCtx [], .restart sampleCtx {}, .command sampleCtx setTruck]
    ∃ s, runSteps (History.step historyLib) events { db := { storage := {} } } = some s ∧
      s.given = [1, 2, 3, 4, 5] ∧ s.jobs = ["jobjob:3", "jobjob:5"] ∧ s.jobs.Nodup := by
  intro events
  have hids : Function.Injective (historyLib.opaqueWebhookId "job") :=
    fun _ _ h => (String.append_right_inj _).1 h
  have hbuild : (build historyLib sampleCtx {} {}).1 = .ok { storage := {} } := rfl
  have hmeet : StepsMeet (History.step historyLib) LogReaches events { db := { storage := {} } } :=
    stepsMeet_of_checkSteps logReaches (fun _ _ => logReaches_of_check) rfl
  exact ⟨_, rfl, rfl, rfl,
    (positions_never_reused historyLib_keepsJobs hids rfl hbuild hmeet rfl).2⟩

/-- FLUSHDB empties the log and keeps the counter, but a restart starts it again from the empty
log. The same hook and the same SET then get the same numbers and the same job id. -/
theorem job_id_reused_after_flush :
    let events : List HistoryEvent := [.command sampleCtx setGate, .command sampleCtx setTruck,
      .flushdb sampleCtx, .restart sampleCtx {}, .command sampleCtx setGate,
      .command sampleCtx setTruck]
    ∃ s, runSteps (History.step historyLib) events { db := { storage := {} } } = some s ∧
      s.given = [1, 2, 3, 4, 1, 2, 3] ∧ s.jobs = ["jobjob:3", "jobjob:3"] :=
  ⟨_, rfl, rfl, rfl⟩

end History

end LatLng.Webhook
