import LatLng.Core.Growth
import LatLng.Lib.Schedule
import LatLng.Webhook.Queue

/-! The dispatcher of webhook jobs. It reads the tail of the log into the queue, leases jobs
that are due, lets a task deliver each of them, and writes the outcome back to the log. Its
steps may come in any order; the loop that fixes an order is one of them. -/

namespace LatLng.Webhook

open LatLng.Core Storage LatLng.Lib List

structure OutboxConfig where
  concurrencyLimit : Nat
  leaseMs : Nat
  retryInitialBackoffMs : Nat
  retryMaxBackoffMs : Nat

namespace OutboxConfig

def webhookConcurrencyLimit (config : OutboxConfig) : Nat := max config.concurrencyLimit 1

def webhookLeaseMs (config : OutboxConfig) : Nat := max config.leaseMs 1

def webhookRetryInitialBackoffMs (config : OutboxConfig) : Nat := max config.retryInitialBackoffMs 1

def webhookRetryMaxBackoffMs (config : OutboxConfig) : Nat :=
  max config.retryMaxBackoffMs (max config.retryInitialBackoffMs 1)

end OutboxConfig

/-- Doubles the backoff until it reaches the maximum, saturating in a 64-bit word. -/
def doubleBackoff (initialMs maxMs : Nat) : Nat → Nat → Nat
  | 0, backoff => min backoff (max maxMs initialMs)
  | exponent + 1, backoff =>
    let backoff := min (backoff * 2) (2 ^ 64 - 1)
    if maxMs ≤ backoff then max maxMs initialMs else doubleBackoff initialMs maxMs exponent backoff

def exponentialBackoffMs (initialMs maxMs attemptsUsed : Nat) : Nat :=
  doubleBackoff initialMs maxMs (attemptsUsed - 1) (max initialMs 1)

inductive DeliveryOutcome where
  | delivered
  | failed (error : String)
  | skipped

inductive Progress where
  | spawned
  | delivering
  | ended (outcome : DeliveryOutcome)
  | lost

structure Attempt where
  job : QueueJob
  /-- The end of the lease under which the job was handed out. -/
  leaseExpiresAtMs : Nat
  epoch : Nat
  progress : Progress

/-- The record of an outcome, if it has one. The counter of attempts is the one the job had
when it was leased. -/
def outcomeRecord (config : OutboxConfig) (nowMs : Nat) (job : QueueJob) :
    DeliveryOutcome → Option LogRecord
  | .skipped => none
  | .delivered => some (.webhookAck job.jobId)
  | .failed error =>
    let attemptsUsed := min (job.attemptsUsed + 1) (2 ^ 32 - 1)
    if job.maxAttempts ≤ attemptsUsed then
      some (.webhookDeadLetter job.jobId attemptsUsed error)
    else
      let backoffMs := exponentialBackoffMs config.webhookRetryInitialBackoffMs
        config.webhookRetryMaxBackoffMs attemptsUsed
      some (.webhookRetryScheduled job.jobId attemptsUsed (min (nowMs + backoffMs) (2 ^ 64 - 1))
        error)

/-- The records that only the outbox writes. -/
def IsOutcome : LogRecord → Prop
  | .webhookAck _ => True
  | .webhookRetryScheduled _ _ _ _ => True
  | .webhookDeadLetter _ _ _ => True
  | _ => False

variable {outcome : DeliveryOutcome}

theorem isOutcome_outcomeRecord {config : OutboxConfig} {nowMs : Nat} {job : QueueJob}
    {record : LogRecord}
    (h : outcomeRecord config nowMs job outcome = some record) : IsOutcome record := by
  unfold outcomeRecord at h
  split at h
  · cases h
  · cases h
    trivial
  · dsimp only at h
    split at h
    all_goals
      cases h
      trivial

theorem exists_outcomeRecord (config : OutboxConfig) (nowMs : Nat) (job : QueueJob)
    (h : outcome ≠ .skipped) :
    ∃ record, outcomeRecord config nowMs job outcome = some record := by
  cases outcome with
  | delivered => exact ⟨_, rfl⟩
  | failed error =>
    rw [outcomeRecord]
    split <;> exact ⟨_, rfl⟩
  | skipped => exact absurd rfl h

/-- What the outbox needs of the serializers. An outcome, which holds no floating point numbers,
reads back as it was written; any other record, if it can be read at all, is still a command or
still the same job. -/
structure KeepsJobs (lib : Lib) : Prop where
  outcome : ∀ {record payload}, IsOutcome record → lib.codec.toJson record = .ok payload →
    decodeLogRecord lib payload = .ok record
  command : ∀ {c payload record}, lib.codec.toJson (.command c) = .ok payload →
    decodeLogRecord lib payload = .ok record → ∃ c', record = .command c'
  enqueue : ∀ {r payload record}, lib.codec.toJson (.webhookEnqueue r) = .ok payload →
    decodeLogRecord lib payload = .ok record → ∃ r', record = .webhookEnqueue r' ∧
      r'.jobId = r.jobId ∧ r'.attemptsUsed = r.attemptsUsed ∧ r'.maxAttempts = r.maxAttempts

theorem KeepsJobs.of_lossless {lib : Lib} (h : lib.codec.Lossless) : KeepsJobs lib where
  outcome _ hjson := decodeLogRecord_of_toJson h hjson
  command hjson hdecode := by
    cases (decodeLogRecord_of_toJson h hjson).symm.trans hdecode
    exact ⟨_, rfl⟩
  enqueue hjson hdecode := by
    cases (decodeLogRecord_of_toJson h hjson).symm.trans hdecode
    exact ⟨_, rfl, rfl, rfl, rfl⟩

structure Outbox where
  db : Db
  queue : Queue
  lastAppliedSequence : Nat
  epoch : Nat := 0
  /-- Jobs that are leased but have no task yet, with the end of their lease. -/
  hand : List (QueueJob × Nat) := []
  inFlight : List Attempt := []
  nowMs : Nat
  flushing : Bool := false
  /-- The jobs of all deliveries begun so far, newest first. -/
  begun : List String := []

variable (lib : Lib)

/-- The entries of the log behind a position, as `replay_log` hands them out. -/
def tailOf (entries : List StorageEntry) (afterSeq : Nat) : List StorageEntry :=
  entries.filter fun entry => afterSeq < entry.sequence

namespace Outbox

def rebuildWebhookQueueFromLog (db : Db) (nowMs : Nat) : Except CoreError Outbox :=
  match db.storage.read .ok with
  | (.error e, _) => .error (.storage e)
  | (.ok entries, storage) =>
    match (∅ : Queue).replay lib (tailOf entries 0) 0 with
    | (.error e, _) => .error e
    | (.ok last, queue) =>
      .ok { db := { db with storage }, queue, lastAppliedSequence := last, nowMs }

def applyLogTail (s : Outbox) : Except CoreError Unit × Outbox :=
  match s.db.storage.read .ok with
  | (.error e, storage) => (.error (.storage e), { s with db := { s.db with storage } })
  | (.ok entries, storage) =>
    let s := { s with db := { s.db with storage } }
    match s.queue.replay lib (tailOf entries s.lastAppliedSequence) s.lastAppliedSequence with
    | (.error e, queue) => (.error e, { s with queue })
    | (.ok last, queue) => (.ok (), { s with queue, lastAppliedSequence := last })

def releaseExpiredLeases (s : Outbox) : Outbox :=
  { s with queue := s.queue.releaseExpiredLeases s.nowMs }

def leaseDue (s : Outbox) (limit leaseMs : Nat) : Outbox :=
  let (jobs, queue) := s.queue.leaseDue limit leaseMs s.nowMs
  { s with queue, hand := s.hand ++ jobs.map fun job => (job, Queue.leaseEnd s.nowMs leaseMs) }

def spawn (s : Outbox) : Outbox :=
  { s with
    hand := []
    inFlight := s.inFlight ++ s.hand.map fun (job, leaseExpiresAtMs) =>
      { job, leaseExpiresAtMs, epoch := s.epoch, progress := .spawned } }

def setProgress (s : Outbox) (k : Nat) (attempt : Attempt) (progress : Progress) : Outbox :=
  { s with inFlight := s.inFlight.set k { attempt with progress } }

/-- A task gets the gate and begins its delivery, unless the epoch has changed. -/
def begin (s : Outbox) (k : Nat) (attempt : Attempt) : Outbox :=
  if attempt.epoch ≠ s.epoch then s.setProgress k attempt (.ended .skipped)
  else { s.setProgress k attempt .delivering with begun := attempt.job.jobId :: s.begun }

/-- The outcome goes to the log and then to the queue. A failed append leaves the job as it is. -/
def finalizeWebhookAttempt (s : Outbox) (config : OutboxConfig) (ctx : Ctx) (attempt : Attempt)
    (outcome : DeliveryOutcome) : Outbox :=
  if attempt.epoch ≠ s.epoch then s
  else
    match outcomeRecord config s.nowMs attempt.job outcome with
    | none => s
    | some record =>
      match s.db.appendLogRecords lib ctx [record] with
      | (.error _, db) => { s with db }
      | (.ok sequences, db) =>
        { s with db, queue := s.queue.applyLogRecord (sequences.headD 0) record }

end Outbox

inductive OutboxAction where
  | tick (ms : Nat)
  | write (ctx : Ctx) (call : Call)
  | applyLogTail
  | releaseExpiredLeases
  | leaseDue (limit : Nat) (config : OutboxConfig)
  | spawn
  | begin (k : Nat)
  | deliver (k : Nat) (outcome : DeliveryOutcome)
  | lose (k : Nat)
  | finish (k : Nat) (config : OutboxConfig) (ctx : Ctx)

namespace Outbox

/-- One step; the sections under the gate wait while FLUSHDB holds it. -/
def step (action : OutboxAction) (s : Outbox) : Option Outbox :=
  match action with
  | .tick ms => some { s with nowMs := s.nowMs + ms }
  | .write ctx call =>
    if call.writes then some { s with db := (s.db.call lib ctx call).2 } else none
  | .applyLogTail => if s.flushing then none else some (s.applyLogTail lib).2
  | .releaseExpiredLeases => if s.flushing then none else some s.releaseExpiredLeases
  | .leaseDue limit config =>
    if s.flushing then none else some (s.leaseDue limit config.webhookLeaseMs)
  | .spawn => some s.spawn
  | .begin k =>
    match s.inFlight[k]? with
    | some attempt =>
      match attempt.progress with
      | .spawned => if s.flushing then none else some (s.begin k attempt)
      | _ => none
    | none => none
  | .deliver k outcome =>
    match s.inFlight[k]? with
    | some attempt =>
      match attempt.progress, outcome with
      | .delivering, .skipped => none
      | .delivering, outcome => some (s.setProgress k attempt (.ended outcome))
      | _, _ => none
    | none => none
  | .lose k =>
    match s.inFlight[k]? with
    | some attempt =>
      match attempt.progress with
      | .delivering => some (s.setProgress k attempt .lost)
      | _ => none
    | none => none
  | .finish k config ctx =>
    match s.inFlight[k]? with
    | some attempt =>
      let rest := { s with inFlight := s.inFlight.eraseIdx k }
      match attempt.progress with
      | .ended outcome =>
        if s.flushing then none
        else some (rest.finalizeWebhookAttempt lib config ctx attempt outcome)
      | .lost => some rest
      | _ => none
    | none => none

/-- If the attempt that is about to be finished has an outcome, the log takes it. -/
def Recorded (k : Nat) (config : OutboxConfig) (ctx : Ctx) (s : Outbox) : Prop :=
  ∀ attempt outcome record, s.inFlight[k]? = some attempt → attempt.progress = .ended outcome →
    outcomeRecord config s.nowMs attempt.job outcome = some record →
      ∃ sequences, (s.db.appendLogRecords lib ctx [record]).1 = .ok sequences

/-! ### What a step can do -/

inductive Moves (s : Outbox) : OutboxAction → Outbox → Prop
  | tick (ms : Nat) : Moves s (.tick ms) { s with nowMs := s.nowMs + ms }
  | write (ctx : Ctx) {call : Call} (h : call.writes = true) :
    Moves s (.write ctx call) { s with db := (s.db.call lib ctx call).2 }
  | applyLogTail (hgate : s.flushing = false) : Moves s .applyLogTail (s.applyLogTail lib).2
  | releaseExpiredLeases (hgate : s.flushing = false) :
    Moves s .releaseExpiredLeases s.releaseExpiredLeases
  | leaseDue (limit : Nat) (config : OutboxConfig) (hgate : s.flushing = false) :
    Moves s (.leaseDue limit config) (s.leaseDue limit config.webhookLeaseMs)
  | spawn : Moves s .spawn s.spawn
  | begin {k : Nat} {attempt : Attempt} (hk : s.inFlight[k]? = some attempt)
    (hprogress : attempt.progress = .spawned) (hgate : s.flushing = false) :
    Moves s (.begin k) (s.begin k attempt)
  | deliver {k : Nat} {attempt : Attempt} (outcome : DeliveryOutcome)
    (hk : s.inFlight[k]? = some attempt) (hprogress : attempt.progress = .delivering)
    (hattempted : outcome ≠ .skipped) :
    Moves s (.deliver k outcome) (s.setProgress k attempt (.ended outcome))
  | lose {k : Nat} {attempt : Attempt} (hk : s.inFlight[k]? = some attempt)
    (hprogress : attempt.progress = .delivering) :
    Moves s (.lose k) (s.setProgress k attempt .lost)
  | finish {k : Nat} {attempt : Attempt} {outcome : DeliveryOutcome} (config : OutboxConfig)
    (ctx : Ctx) (hk : s.inFlight[k]? = some attempt) (hprogress : attempt.progress = .ended outcome)
    (hgate : s.flushing = false) :
    Moves s (.finish k config ctx)
      ({ s with inFlight := s.inFlight.eraseIdx k }.finalizeWebhookAttempt lib config ctx attempt
        outcome)
  | forget {k : Nat} {attempt : Attempt} (config : OutboxConfig) (ctx : Ctx)
    (hk : s.inFlight[k]? = some attempt) (hprogress : attempt.progress = .lost) :
    Moves s (.finish k config ctx) { s with inFlight := s.inFlight.eraseIdx k }

variable {lib} {s : Outbox} {config : OutboxConfig} {outcome : DeliveryOutcome}

theorem moves_of_step {action : OutboxAction} {s' : Outbox} (h : s.step lib action = some s') :
    s.Moves lib action s' := by
  -- a section under the gate runs only while FLUSHDB does not hold it
  have hgated : ∀ {t : Outbox}, (if s.flushing then none else some t) = some s' →
      s.flushing = false ∧ t = s' := by
    intro t ht
    split at ht
    · cases ht
    next hflush => exact ⟨Bool.eq_false_iff.2 hflush, Option.some.inj ht⟩
  unfold step at h
  cases action with
  | tick ms =>
    cases h
    exact .tick ms
  | write ctx call =>
    dsimp only at h
    split at h
    next hw =>
      cases h
      exact .write ctx hw
    · cases h
  | applyLogTail =>
    obtain ⟨hgate, rfl⟩ := hgated h
    exact .applyLogTail hgate
  | releaseExpiredLeases =>
    obtain ⟨hgate, rfl⟩ := hgated h
    exact .releaseExpiredLeases hgate
  | leaseDue limit config =>
    obtain ⟨hgate, rfl⟩ := hgated h
    exact .leaseDue limit config hgate
  | spawn =>
    cases h
    exact .spawn
  | begin k =>
    dsimp only at h
    split at h
    next attempt hk =>
      split at h
      next hprogress =>
        obtain ⟨hgate, rfl⟩ := hgated h
        exact .begin hk hprogress hgate
      · cases h
    · cases h
  | deliver k outcome =>
    dsimp only at h
    split at h
    next attempt hk =>
      cases hprogress : attempt.progress with
      | delivering =>
        rw [hprogress] at h
        cases outcome with
        | skipped => cases h
        | _ =>
          cases h
          exact .deliver _ hk hprogress (by simp)
      | _ =>
        rw [hprogress] at h
        cases h
    · cases h
  | lose k =>
    dsimp only at h
    split at h
    next attempt hk =>
      split at h
      next hprogress =>
        cases h
        exact .lose hk hprogress
      · cases h
    · cases h
  | finish k config ctx =>
    dsimp only at h
    split at h
    next attempt hk =>
      split at h
      next outcome hprogress =>
        obtain ⟨hgate, rfl⟩ := hgated h
        exact .finish config ctx hk hprogress hgate
      next hprogress =>
        cases h
        exact .forget config ctx hk hprogress
      · cases h
    · cases h

theorem applyLogTail_cases (s : Outbox) :
    ∃ storage queue, s.db.storage.SameLog storage ∧
      ((∃ e done rest, s.applyLogTail lib =
            (.error e, { s with db := { s.db with storage }, queue }) ∧
          tailOf s.db.storage.entries s.lastAppliedSequence = done ++ rest ∧
          ∀ jobId : String, queue[jobId]? = (logEffect lib jobId done).act s.queue[jobId]?) ∨
        (s.applyLogTail lib =
            (.ok (), { s with
              db := { s.db with storage }
              queue
              lastAppliedSequence := lastOf
                (tailOf s.db.storage.entries s.lastAppliedSequence) s.lastAppliedSequence }) ∧
          ∀ jobId : String, queue[jobId]? =
            (logEffect lib jobId (tailOf s.db.storage.entries s.lastAppliedSequence)).act
              s.queue[jobId]?)) := by
  rcases hread : s.db.storage.read (.ok : List StorageEntry → Except StorageError _) with
    ⟨r, storage⟩
  obtain ⟨hsame, ⟨e, rfl⟩ | rfl⟩ := LogStore.read_cases hread
  · refine ⟨storage, s.queue, hsame, .inl ⟨.storage e, [], _, ?_, rfl, fun _ => rfl⟩⟩
    rw [applyLogTail, hread]
  · have hcases := @Queue.replay_cases lib s.queue
      (tailOf s.db.storage.entries s.lastAppliedSequence) s.lastAppliedSequence
    rcases hreplay : s.queue.replay lib (tailOf s.db.storage.entries s.lastAppliedSequence)
      s.lastAppliedSequence with ⟨result, queue⟩
    rw [hreplay] at hcases
    refine ⟨storage, queue, hsame, ?_⟩
    rcases hcases with ⟨e, done, rest, herr, hsplit, hrows⟩ | ⟨hok, hrows⟩
    · refine .inl ⟨e, done, rest, ?_, hsplit, hrows⟩
      subst herr
      rw [applyLogTail, hread]
      dsimp only
      rw [hreplay]
    · refine .inr ⟨?_, hrows⟩
      subst hok
      rw [applyLogTail, hread]
      dsimp only
      rw [hreplay]

theorem applyLogTail_entries (s : Outbox) :
    (s.applyLogTail lib).2.db.storage.entries = s.db.storage.entries := by
  obtain ⟨storage, queue, hsame, ⟨e, done, rest, heq, -⟩ | ⟨heq, -⟩⟩ := @applyLogTail_cases lib s
  all_goals
    rw [heq]
    exact hsame.entries

theorem rebuild_cases {db : Db} {nowMs : Nat}
    (h : rebuildWebhookQueueFromLog lib db nowMs = .ok s) :
    ∃ storage queue, db.storage.SameLog storage ∧
      (∀ jobId : String, queue[jobId]? =
        (logEffect lib jobId (tailOf db.storage.entries 0)).act none) ∧
      s = { db := { db with storage }, queue, nowMs
            lastAppliedSequence := lastOf (tailOf db.storage.entries 0) 0 } := by
  rw [rebuildWebhookQueueFromLog] at h
  rcases hread : db.storage.read (.ok : List StorageEntry → Except StorageError _) with ⟨r, storage⟩
  rw [hread] at h
  obtain ⟨hsame, ⟨e, rfl⟩ | rfl⟩ := LogStore.read_cases hread
  · cases h
  dsimp only at h
  have hcases := @Queue.replay_cases lib ∅ (tailOf db.storage.entries 0) 0
  rcases hreplay : (∅ : Queue).replay lib (tailOf db.storage.entries 0) 0 with ⟨_ | last, queue⟩
  · rw [hreplay] at h
    cases h
  rw [hreplay] at h hcases
  rcases hcases with ⟨e, -, -, herr, -⟩ | ⟨hok, hrows⟩
  · cases herr
  · cases hok
    cases h
    refine ⟨storage, queue, hsame, fun jobId => ?_, rfl⟩
    have hrow := hrows jobId
    rwa [Std.ExtTreeMap.getElem?_empty] at hrow

variable {record : LogRecord}

theorem appendLogRecord_cases (hcodec : KeepsJobs lib) {db : Db}
    (hstores : db.storage.storesCommandLog) (ctx : Ctx) (houtcome : IsOutcome record) :
    (∃ e, (db.appendLogRecords lib ctx [record]).1 = .error e ∧
      db.Unlogged (db.appendLogRecords lib ctx [record]).2) ∨
    ∃ entry, (db.appendLogRecords lib ctx [record]).1 = .ok [entry.sequence] ∧
      db.Logged [entry] (db.appendLogRecords lib ctx [record]).2 ∧
      decodeLogRecord lib entry.command = .ok record := by
  have hcases := db.persist_cases lib ctx (.records [record])
  rcases hcases with hrefused | ⟨hno, -⟩ | ⟨-, hok, entries, hlogged, hencode⟩
  · exact .inl hrefused
  · rw [hstores] at hno
    cases hno
  · obtain ⟨command, rest, hr, hrest, rfl⟩ := encodeEntriesForSequences_cons hencode
    cases hrest
    refine .inr ⟨_, ?_, hlogged, hcodec.outcome houtcome (toJson_of_encode hr)⟩
    exact hok

variable {attempt : Attempt}

section Recorded

variable {ctx : Ctx} {sequences : List Nat} (hepoch : attempt.epoch = s.epoch)
  (hrecord : outcomeRecord config s.nowMs attempt.job outcome = some record)
  (happend : (s.db.appendLogRecords lib ctx [record]).1 = .ok sequences)

include hepoch hrecord happend

theorem finalizeWebhookAttempt_eq :
    s.finalizeWebhookAttempt lib config ctx attempt outcome =
      { s with
        db := (s.db.appendLogRecords lib ctx [record]).2
        queue := s.queue.applyLogRecord (sequences.headD 0) record } := by
  rw [finalizeWebhookAttempt, if_neg (not_not.2 hepoch), hrecord]
  dsimp only
  rcases hr : s.db.appendLogRecords lib ctx [record] with ⟨r, db⟩
  rw [hr] at happend
  subst happend
  rfl

theorem finalizeWebhookAttempt_recorded (hcodec : KeepsJobs lib)
    (hstores : s.db.storage.storesCommandLog) :
    ∃ db entry, s.db.Logged [entry] db ∧ decodeLogRecord lib entry.command = .ok record ∧
      s.finalizeWebhookAttempt lib config ctx attempt outcome =
        { s with db, queue := s.queue.applyLogRecord entry.sequence record } := by
  rcases appendLogRecord_cases hcodec hstores ctx (isOutcome_outcomeRecord hrecord) with
    ⟨e, he, -⟩ | ⟨entry, hok, h⟩
  · rw [he] at happend
    cases happend
  · exact ⟨_, entry, h.1, h.2, finalizeWebhookAttempt_eq hepoch hrecord hok⟩

end Recorded

theorem finalizeWebhookAttempt_cases (hcodec : KeepsJobs lib) (s : Outbox)
    (hstores : s.db.storage.storesCommandLog) (config : OutboxConfig) (ctx : Ctx)
    (attempt : Attempt) (outcome : DeliveryOutcome) :
    (∃ db, s.db.Unlogged db ∧
      s.finalizeWebhookAttempt lib config ctx attempt outcome = { s with db }) ∨
    (attempt.epoch = s.epoch ∧ ∃ db record entry,
      outcomeRecord config s.nowMs attempt.job outcome = some record ∧
      s.db.Logged [entry] db ∧ decodeLogRecord lib entry.command = .ok record ∧
      s.finalizeWebhookAttempt lib config ctx attempt outcome =
        { s with db, queue := s.queue.applyLogRecord entry.sequence record }) := by
  have hsame : s.db.Unlogged s.db := ⟨rfl, rfl, LogStore.SameLog.refl _, le_rfl⟩
  by_cases hepoch : attempt.epoch = s.epoch
  · cases hrecord : outcomeRecord config s.nowMs attempt.job outcome with
    | none =>
      refine .inl ⟨s.db, hsame, ?_⟩
      rw [finalizeWebhookAttempt, if_neg (not_not.2 hepoch), hrecord]
    | some record =>
      rcases appendLogRecord_cases hcodec hstores ctx (isOutcome_outcomeRecord hrecord) with
        ⟨e, he, hun⟩ | ⟨entry, hok, -⟩
      · refine .inl ⟨_, hun, ?_⟩
        rw [finalizeWebhookAttempt, if_neg (not_not.2 hepoch), hrecord]
        rcases hr : s.db.appendLogRecords lib ctx [record] with ⟨r, db⟩
        rw [hr] at he
        dsimp only at he ⊢
        subst he
        rw [hr]
      · obtain ⟨db, entry, hlogged, hdecode, heq⟩ :=
          finalizeWebhookAttempt_recorded hepoch hrecord hok hcodec hstores
        exact .inr ⟨hepoch, db, record, entry, rfl, hlogged, hdecode, heq⟩
  · refine .inl ⟨s.db, hsame, ?_⟩
    rw [finalizeWebhookAttempt, if_pos hepoch]

/-! ### What no step changes -/

variable {s s' : Outbox} {action : OutboxAction}

theorem setProgress_attempts {k : Nat} (hk : s.inFlight[k]? = some attempt)
    (progress : Progress) {a : Attempt} (ha : a ∈ (s.setProgress k attempt progress).inFlight) :
    ∃ b ∈ s.inFlight, a = { b with progress := a.progress } := by
  obtain ⟨i, hi, rfl⟩ := mem_iff_getElem.1 ha
  have hlen : i < s.inFlight.length := by rwa [setProgress, length_set] at hi
  simp only [setProgress, getElem_set]
  split
  · exact ⟨attempt, mem_of_getElem? hk, rfl⟩
  · exact ⟨s.inFlight[i], getElem_mem hlen, rfl⟩

theorem finalizeWebhookAttempt_frame (s : Outbox) (config : OutboxConfig) (ctx : Ctx)
    (attempt : Attempt) (outcome : DeliveryOutcome) :
    ∃ db queue, s.finalizeWebhookAttempt lib config ctx attempt outcome = { s with db, queue } := by
  rw [finalizeWebhookAttempt]
  split
  · exact ⟨_, _, rfl⟩
  · split
    · exact ⟨_, _, rfl⟩
    · split <;> exact ⟨_, _, rfl⟩

theorem finalizeWebhookAttempt_log (s : Outbox) (config : OutboxConfig) (ctx : Ctx)
    (attempt : Attempt) (outcome : DeliveryOutcome) :
    s.db.Extends (fun _ => True) (s.finalizeWebhookAttempt lib config ctx attempt outcome).db := by
  rw [finalizeWebhookAttempt]
  split
  · exact .refl _
  · split
    · exact .refl _
    next record hrecord =>
      have hext : s.db.Extends (fun _ => True) (s.db.appendLogRecords lib ctx [record]).2 :=
        (s.db.appendLogRecord_extends lib ctx record).mono fun _ _ => trivial
      rcases h : s.db.appendLogRecords lib ctx [record] with ⟨_ | _, db⟩ <;> rw [h] at hext <;>
        exact hext

theorem finalizeWebhookAttempt_queue (s : Outbox) (config : OutboxConfig) (ctx : Ctx)
    (attempt : Attempt) (outcome : DeliveryOutcome) :
    (s.finalizeWebhookAttempt lib config ctx attempt outcome).queue = s.queue ∨
      ∃ sequence record, outcomeRecord config s.nowMs attempt.job outcome = some record ∧
        (s.finalizeWebhookAttempt lib config ctx attempt outcome).queue =
          s.queue.applyLogRecord sequence record := by
  rw [finalizeWebhookAttempt]
  split
  · exact .inl rfl
  · split
    · exact .inl rfl
    next record hrecord =>
      split
      · exact .inl rfl
      · exact .inr ⟨_, record, hrecord, rfl⟩

theorem applyLogTail_frame (s : Outbox) :
    ∃ db queue last, (s.applyLogTail lib).2 =
      { s with db, queue, lastAppliedSequence := last } := by
  obtain ⟨storage, queue, -, ⟨e, done, rest, h, -⟩ | ⟨h, -⟩⟩ := @applyLogTail_cases lib s
  · exact ⟨_, _, _, by rw [h]⟩
  · exact ⟨_, _, _, by rw [h]⟩

theorem begin_frame (s : Outbox) (k : Nat) (attempt : Attempt) :
    ∃ progress begun, s.begin k attempt =
      { s.setProgress k attempt progress with begun } := by
  rw [begin]
  split
  · exact ⟨_, _, rfl⟩
  · exact ⟨_, _, rfl⟩

namespace Moves

variable (h : s.Moves lib action s')

include h

theorem frame :
    s'.epoch = s.epoch ∧ s'.flushing = s.flushing ∧ s.nowMs ≤ s'.nowMs := by
  cases h with
  | tick ms => exact ⟨rfl, rfl, Nat.le_add_right _ _⟩
  | applyLogTail =>
    obtain ⟨db, queue, last, heq⟩ := @applyLogTail_frame lib s
    rw [heq]
    exact ⟨rfl, rfl, le_rfl⟩
  | begin hk =>
    obtain ⟨progress, begun, heq⟩ := s.begin_frame _ _
    rw [heq]
    exact ⟨rfl, rfl, le_rfl⟩
  | finish config ctx hk =>
    obtain ⟨db, queue, heq⟩ := @finalizeWebhookAttempt_frame lib _ _ _ _ _
    rw [heq]
    exact ⟨rfl, rfl, le_rfl⟩
  | _ => exact ⟨rfl, rfl, le_rfl⟩

theorem attempts {a : Attempt} (ha : a ∈ s'.inFlight) :
    (∃ b ∈ s.inFlight, a = { b with progress := a.progress }) ∨
      ∃ p ∈ s.hand, a = { job := p.1, leaseExpiresAtMs := p.2, epoch := s.epoch
                          progress := .spawned } := by
  have hold : ∀ a ∈ s.inFlight, ∃ b ∈ s.inFlight, a = { b with progress := a.progress } :=
    fun a ha => ⟨a, ha, rfl⟩
  cases h with
  | applyLogTail =>
    obtain ⟨db, queue, last, heq⟩ := @applyLogTail_frame lib s
    rw [heq] at ha
    exact .inl (hold a ha)
  | spawn =>
    rcases mem_append.1 ha with ha | ha
    · exact .inl (hold a ha)
    · obtain ⟨p, hp, rfl⟩ := mem_map.1 ha
      exact .inr ⟨p, hp, rfl⟩
  | begin hk =>
    obtain ⟨progress, begun, heq⟩ := s.begin_frame _ _
    rw [heq] at ha
    exact .inl (setProgress_attempts hk progress ha)
  | deliver outcome hk | lose hk => exact .inl (setProgress_attempts hk _ ha)
  | finish config ctx hk =>
    obtain ⟨db, queue, heq⟩ := @finalizeWebhookAttempt_frame lib _ _ _ _ _
    rw [heq] at ha
    exact .inl (hold a (mem_of_mem_eraseIdx ha))
  | forget => exact .inl (hold a (mem_of_mem_eraseIdx ha))
  | _ => exact .inl (hold a ha)

theorem hand {p : QueueJob × Nat} (hp : p ∈ s'.hand) :
    p ∈ s.hand ∨ s.flushing = false ∧ ∃ row, s.queue[p.1.jobId]? = some row ∧
      row.due s.nowMs ∧ p.1 = row.toJob p.1.jobId := by
  cases h with
  | applyLogTail =>
    obtain ⟨db, queue, last, heq⟩ := @applyLogTail_frame lib s
    rw [heq] at hp
    exact .inl hp
  | leaseDue limit config hgate =>
    rcases mem_append.1 hp with hp | hp
    · exact .inl hp
    · obtain ⟨job, hjob, rfl⟩ := mem_map.1 hp
      obtain ⟨row, hrow, hdue, heq⟩ := Queue.mem_leaseDue hjob
      exact .inr ⟨hgate, row, hrow, hdue, heq⟩
  | spawn => cases hp
  | begin hk =>
    obtain ⟨progress, begun, heq⟩ := s.begin_frame _ _
    rw [heq] at hp
    exact .inl hp
  | finish config ctx hk =>
    obtain ⟨db, queue, heq⟩ := @finalizeWebhookAttempt_frame lib _ _ _ _ _
    rw [heq] at hp
    exact .inl hp
  | _ => exact .inl hp

theorem log : s.db.Extends (fun _ => True) s'.db := by
  cases h with
  | write ctx hw => exact (Db.Grows.call hw ctx).mono fun _ _ => trivial
  | applyLogTail =>
    obtain ⟨storage, queue, hsame, ⟨e, done, rest, heq, -⟩ | ⟨heq, -⟩⟩ := @applyLogTail_cases lib s
    all_goals
      rw [heq]
      exact .of_unlogged ⟨rfl, rfl, hsame, le_rfl⟩
  | begin hk =>
    obtain ⟨progress, begun, heq⟩ := s.begin_frame _ _
    rw [heq]
    exact .refl _
  | @finish k attempt outcome config ctx hk =>
    exact { s with inFlight := s.inFlight.eraseIdx k }.finalizeWebhookAttempt_log config ctx attempt
      outcome
  | _ => exact .refl _

theorem rows {jobId : String} {row' : JobRow} (hrow : s'.queue[jobId]? = some row') :
    (∃ row, s.queue[jobId]? = some row ∧ row'.createdFromSequence = row.createdFromSequence) ∨
      ∃ entry ∈ tailOf s.db.storage.entries s.lastAppliedSequence,
        row'.createdFromSequence = entry.sequence := by
  cases h with
  | applyLogTail =>
    obtain ⟨storage, queue, hsame, ⟨e, done, rest, heq, hsplit, hrows⟩ | ⟨heq, hrows⟩⟩ :=
      @applyLogTail_cases lib s
    · rw [heq] at hrow
      rcases created_logEffect ((hrows jobId).symm.trans hrow) with hold | ⟨entry, he, hcreated⟩
      · exact .inl hold
      · refine .inr ⟨entry, ?_, hcreated⟩
        rw [hsplit]
        exact mem_append_left _ he
    · rw [heq] at hrow
      exact created_logEffect ((hrows jobId).symm.trans hrow)
  | releaseExpiredLeases =>
    rw [Outbox.releaseExpiredLeases, Queue.getElem?_releaseExpiredLeases] at hrow
    obtain ⟨row, hold, rfl⟩ := Option.map_eq_some_iff.1 hrow
    refine .inl ⟨row, hold, ?_⟩
    split <;> rfl
  | leaseDue limit config =>
    change (s.queue.leaseDue limit config.webhookLeaseMs s.nowMs).2[jobId]? = some row' at hrow
    rw [Queue.getElem?_leaseDue] at hrow
    split at hrow
    · obtain ⟨row, hold, rfl⟩ := Option.map_eq_some_iff.1 hrow
      exact .inl ⟨row, hold, rfl⟩
    · exact .inl ⟨row', hrow, rfl⟩
  | begin hk =>
    obtain ⟨progress, begun, heq⟩ := s.begin_frame _ _
    rw [heq] at hrow
    exact .inl ⟨row', hrow, rfl⟩
  | @finish k attempt outcome config ctx hk =>
    rcases @finalizeWebhookAttempt_queue lib { s with inFlight := s.inFlight.eraseIdx k } config ctx
      attempt outcome with heq | ⟨sequence, record, hrecord, heq⟩
    · rw [heq] at hrow
      exact .inl ⟨row', hrow, rfl⟩
    · rw [heq, Queue.getElem?_applyLogRecord] at hrow
      rcases created_recordEffect hrow with hold | ⟨⟨r, rfl, -⟩, -⟩
      · exact .inl hold
      · exact (isOutcome_outcomeRecord hrecord).elim
  | _ => exact .inl ⟨row', hrow, rfl⟩

end Moves

end Outbox

end LatLng.Webhook
