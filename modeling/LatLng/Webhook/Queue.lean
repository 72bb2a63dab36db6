import LatLng.Core.Record

/-! The table of webhook jobs that the server keeps beside the log. Every change of the table
comes from a record of the log or from the leases of the dispatcher. -/

namespace LatLng.Webhook

open Geofence LatLng.Core Storage Std List

inductive JobState where
  | pending
  | leased
  | deadLetter
deriving DecidableEq, Repr

structure JobRow where
  eventId : String
  hookName : String
  endpoint : String
  payload : GeofenceEvent
  state : JobState
  attemptsUsed : Nat
  maxAttempts : Nat
  nextAttemptAtMs : Nat
  leaseExpiresAtMs : Option Nat
  lastError : Option String
  createdFromSequence : Nat

structure QueueJob where
  jobId : String
  eventId : String
  hookName : String
  endpoint : String
  event : GeofenceEvent
  attemptsUsed : Nat
  maxAttempts : Nat
  nextAttemptAtMs : Nat
  lastError : Option String
  createdFromSequence : Nat

abbrev Queue := ExtTreeMap String JobRow

namespace JobRow

def enqueued (sequence : Nat) (record : WebhookEnqueueRecord) : JobRow where
  eventId := record.event.eventId.getD record.jobId
  hookName := record.event.hook.getD record.jobId
  endpoint := record.endpoint
  payload := record.event
  state := .pending
  attemptsUsed := record.attemptsUsed
  maxAttempts := record.maxAttempts
  nextAttemptAtMs := record.nextAttemptAtMs
  leaseExpiresAtMs := none
  lastError := none
  createdFromSequence := sequence

def retry (row : JobRow) (attemptsUsed nextAttemptAtMs : Nat) (lastError : String) : JobRow :=
  { row with state := .pending, attemptsUsed, nextAttemptAtMs, leaseExpiresAtMs := none
             lastError := some lastError }

/-- The time of the next attempt stays in the row. -/
def deadLetter (row : JobRow) (attemptsUsed : Nat) (lastError : String) : JobRow :=
  { row with state := .deadLetter, attemptsUsed, leaseExpiresAtMs := none
             lastError := some lastError }

def lease (row : JobRow) (expiresAtMs : Nat) : JobRow :=
  { row with state := .leased, leaseExpiresAtMs := some expiresAtMs }

def leaseExpired (row : JobRow) (nowMs : Nat) : Bool :=
  row.state = .leased && row.leaseExpiresAtMs.any (· ≤ nowMs)

def release (row : JobRow) : JobRow := { row with state := .pending, leaseExpiresAtMs := none }

def due (row : JobRow) (nowMs : Nat) : Bool := row.state = .pending && row.nextAttemptAtMs ≤ nowMs

def toJob (row : JobRow) (jobId : String) : QueueJob where
  jobId := jobId
  eventId := row.eventId
  hookName := row.hookName
  endpoint := row.endpoint
  event := row.payload
  attemptsUsed := row.attemptsUsed
  maxAttempts := row.maxAttempts
  nextAttemptAtMs := row.nextAttemptAtMs
  lastError := row.lastError
  createdFromSequence := row.createdFromSequence

end JobRow

namespace Queue

def reset (_ : Queue) : Queue := ∅

def applyEnqueue (q : Queue) (sequence : Nat) (record : WebhookEnqueueRecord) : Queue :=
  q.insert record.jobId (.enqueued sequence record)

def applyAck (q : Queue) (jobId : String) : Queue := q.erase jobId

def applyRetry (q : Queue) (jobId : String) (attemptsUsed nextAttemptAtMs : Nat)
    (lastError : String) : Queue :=
  q.modify jobId (·.retry attemptsUsed nextAttemptAtMs lastError)

def applyDeadLetter (q : Queue) (jobId : String) (attemptsUsed : Nat) (lastError : String) : Queue :=
  q.modify jobId (·.deadLetter attemptsUsed lastError)

def applyLogRecord (q : Queue) (sequence : Nat) : LogRecord → Queue
  | .command _ => q
  | .webhookEnqueue record => q.applyEnqueue sequence record
  | .webhookAck jobId => q.applyAck jobId
  | .webhookRetryScheduled jobId attemptsUsed nextAttemptAtMs lastError =>
    q.applyRetry jobId attemptsUsed nextAttemptAtMs lastError
  | .webhookDeadLetter jobId attemptsUsed lastError =>
    q.applyDeadLetter jobId attemptsUsed lastError

def releaseExpiredLeases (q : Queue) (nowMs : Nat) : Queue :=
  q.map fun _ row => if row.leaseExpired nowMs then row.release else row

def earlier (a b : String × JobRow) : Prop :=
  a.2.nextAttemptAtMs < b.2.nextAttemptAtMs ∨
    a.2.nextAttemptAtMs = b.2.nextAttemptAtMs ∧ a.2.createdFromSequence ≤ b.2.createdFromSequence

instance : DecidableRel earlier := fun a b => by unfold earlier; infer_instance

def dueJobs (q : Queue) (limit nowMs : Nat) : List (String × JobRow) :=
  ((q.toList.filter fun job => job.2.due nowMs).insertionSort earlier).take limit

def leaseEnd (nowMs leaseMs : Nat) : Nat := min (nowMs + max leaseMs 1) (2 ^ 64 - 1)

def leaseDue (q : Queue) (limit leaseMs nowMs : Nat) : List QueueJob × Queue :=
  if limit = 0 then ([], q)
  else
    let jobs := q.dueJobs limit nowMs
    (jobs.map fun job => job.2.toJob job.1,
      jobs.foldl (fun q job => q.modify job.1 (·.lease (leaseEnd nowMs leaseMs))) q)

def nextDueAtMs (q : Queue) : Option Nat :=
  ((q.toList.filter fun job => job.2.state = .pending).map fun job => job.2.nextAttemptAtMs).min?

def rowRecords (job : String × JobRow) : List LogRecord :=
  .webhookEnqueue
      { jobId := job.1, event := job.2.payload, endpoint := job.2.endpoint
        attemptsUsed := job.2.attemptsUsed, maxAttempts := job.2.maxAttempts
        nextAttemptAtMs := job.2.nextAttemptAtMs } ::
    if job.2.state = .deadLetter then
      [.webhookDeadLetter job.1 job.2.attemptsUsed (job.2.lastError.getD "dead-lettered")]
    else []

def snapshotLogRecords (q : Queue) : List LogRecord :=
  (q.toList.insertionSort fun a b => a.2.createdFromSequence ≤ b.2.createdFromSequence).flatMap
    rowRecords

end Queue

/-! ### What a record does to one job -/

structure Patch where
  state : JobState
  attemptsUsed : Nat
  nextAttemptAtMs : Option Nat
  lastError : String

/-- What one or more records do to the row of one job. -/
inductive JobEffect where
  | keep
  | put (row : Option JobRow)
  | patch (p : Patch)

namespace Patch

def apply (p : Patch) (row : JobRow) : JobRow :=
  { row with
    state := p.state
    attemptsUsed := p.attemptsUsed
    nextAttemptAtMs := p.nextAttemptAtMs.getD row.nextAttemptAtMs
    leaseExpiresAtMs := none
    lastError := some p.lastError }

def after (p q : Patch) : Patch :=
  { p with nextAttemptAtMs := p.nextAttemptAtMs <|> q.nextAttemptAtMs }

theorem apply_after (p q : Patch) (row : JobRow) :
    (p.after q).apply row = p.apply (q.apply row) := by
  unfold apply after
  cases p.nextAttemptAtMs <;> rfl

theorem apply_apply_apply (p q : Patch) (row : JobRow) :
    p.apply (q.apply (p.apply row)) = p.apply (q.apply row) := by
  unfold apply
  cases p.nextAttemptAtMs <;> cases q.nextAttemptAtMs <;> rfl

theorem apply_apply (p : Patch) (row : JobRow) : p.apply (p.apply row) = p.apply row := by
  unfold apply
  cases p.nextAttemptAtMs <;> rfl

end Patch

namespace JobEffect

def act : JobEffect → Option JobRow → Option JobRow
  | .keep, row => row
  | .put row, _ => row
  | .patch p, row => row.map p.apply

def after : JobEffect → JobEffect → JobEffect
  | .keep, f => f
  | .put row, _ => .put row
  | .patch p, .keep => .patch p
  | .patch p, .put row => .put (row.map p.apply)
  | .patch p, .patch q => .patch (p.after q)

@[simp] theorem act_after (e f : JobEffect) (row : Option JobRow) :
    (e.after f).act row = e.act (f.act row) := by
  cases e with
  | keep => rfl
  | put row => rfl
  | patch p =>
    cases f with
    | keep => rfl
    | put row => rfl
    | patch q =>
      rw [after, act, act, act, Option.map_map]
      congr 1
      funext row
      exact p.apply_after q row

theorem act_act_act (e f : JobEffect) (row : Option JobRow) :
    e.act (f.act (e.act row)) = e.act (f.act row) := by
  cases e with
  | keep => rfl
  | put _ => rfl
  | patch p =>
    cases f with
    | keep =>
      simp only [act, Option.map_map]
      congr 1
      funext row
      exact p.apply_apply row
    | put _ => rfl
    | patch q =>
      simp only [act, Option.map_map]
      congr 1
      funext row
      exact p.apply_apply_apply q row

theorem act_act (e : JobEffect) (row : Option JobRow) : e.act (e.act row) = e.act row :=
  e.act_act_act .keep row

end JobEffect

def recordEffect (jobId : String) (sequence : Nat) : LogRecord → JobEffect
  | .command _ => .keep
  | .webhookEnqueue record =>
    if record.jobId = jobId then .put (some (.enqueued sequence record)) else .keep
  | .webhookAck id => if id = jobId then .put none else .keep
  | .webhookRetryScheduled id attemptsUsed nextAttemptAtMs lastError =>
    if id = jobId then
      .patch { state := .pending, attemptsUsed, nextAttemptAtMs := some nextAttemptAtMs, lastError }
    else .keep
  | .webhookDeadLetter id attemptsUsed lastError =>
    if id = jobId then
      .patch { state := .deadLetter, attemptsUsed, nextAttemptAtMs := none, lastError }
    else .keep

namespace Queue

theorem getElem?_applyLogRecord (q : Queue) (sequence : Nat) (record : LogRecord) (jobId : String) :
    (q.applyLogRecord sequence record)[jobId]? =
      (recordEffect jobId sequence record).act q[jobId]? := by
  cases record with
  | command c => rfl
  | webhookEnqueue r =>
    rw [applyLogRecord, applyEnqueue, ExtTreeMap.getElem?_insert, recordEffect]
    by_cases h : r.jobId = jobId <;> simp [h, JobEffect.act]
  | webhookAck id =>
    rw [applyLogRecord, applyAck, ExtTreeMap.getElem?_erase, recordEffect]
    by_cases h : id = jobId <;> simp [h, JobEffect.act]
  | webhookRetryScheduled id attemptsUsed nextAttemptAtMs lastError =>
    rw [applyLogRecord, applyRetry, ExtTreeMap.getElem?_modify, recordEffect]
    by_cases h : id = jobId
    · subst h
      simp [JobEffect.act]
      rfl
    · simp [h, JobEffect.act]
  | webhookDeadLetter id attemptsUsed lastError =>
    rw [applyLogRecord, applyDeadLetter, ExtTreeMap.getElem?_modify, recordEffect]
    by_cases h : id = jobId
    · subst h
      simp [JobEffect.act]
      rfl
    · simp [h, JobEffect.act]

end Queue

/-! ### Reading the log into the table -/

section Replay

variable (lib : Lib)

/-- Applies the records one after the other and gives back the number of the last one. A
record that cannot be read stops it half-way. -/
def Queue.replay (q : Queue) : List StorageEntry → Nat → Except CoreError Nat × Queue
  | [], last => (.ok last, q)
  | entry :: entries, _ =>
    match decodeLogRecord lib entry.command with
    | .error e => (.error e, q)
    | .ok record => (q.applyLogRecord entry.sequence record).replay entries entry.sequence

def entryEffect (jobId : String) (entry : StorageEntry) : JobEffect :=
  match decodeLogRecord lib entry.command with
  | .error _ => .keep
  | .ok record => recordEffect jobId entry.sequence record

def logEffect (jobId : String) : List StorageEntry → JobEffect
  | [] => .keep
  | entry :: entries => (logEffect jobId entries).after (entryEffect lib jobId entry)

variable {lib}

theorem act_logEffect_cons (jobId : String) (entry : StorageEntry) (entries : List StorageEntry)
    (row : Option JobRow) :
    (logEffect lib jobId (entry :: entries)).act row =
      (logEffect lib jobId entries).act ((entryEffect lib jobId entry).act row) :=
  JobEffect.act_after _ _ row

theorem act_logEffect_append (jobId : String) (entries batch : List StorageEntry)
    (row : Option JobRow) :
    (logEffect lib jobId (entries ++ batch)).act row =
      (logEffect lib jobId batch).act ((logEffect lib jobId entries).act row) := by
  induction entries generalizing row with
  | nil => rfl
  | cons entry entries ih => rw [cons_append, act_logEffect_cons, act_logEffect_cons, ih]

def lastOf (entries : List StorageEntry) (last : Nat) : Nat :=
  (entries.getLast?.map StorageEntry.sequence).getD last

theorem lastOf_cons (entry : StorageEntry) (entries : List StorageEntry) (last : Nat) :
    lastOf (entry :: entries) last = lastOf entries entry.sequence := by
  cases entries with
  | nil => rfl
  | cons next entries => rfl

theorem Queue.replay_cases (q : Queue) (entries : List StorageEntry) (last : Nat) :
    (∃ e done rest, (q.replay lib entries last).1 = .error e ∧ entries = done ++ rest ∧
      ∀ jobId, (q.replay lib entries last).2[jobId]? = (logEffect lib jobId done).act q[jobId]?) ∨
    ((q.replay lib entries last).1 = .ok (lastOf entries last) ∧
      ∀ jobId, (q.replay lib entries last).2[jobId]? =
        (logEffect lib jobId entries).act q[jobId]?) := by
  induction entries generalizing q last with
  | nil => exact .inr ⟨rfl, fun _ => rfl⟩
  | cons entry entries ih =>
    cases hdecode : decodeLogRecord lib entry.command with
    | error e =>
      refine .inl ⟨e, [], entry :: entries, ?_⟩
      rw [replay, hdecode]
      exact ⟨rfl, rfl, fun _ => rfl⟩
    | ok record =>
      have hrow : ∀ jobId, (q.applyLogRecord entry.sequence record)[jobId]? =
          (entryEffect lib jobId entry).act q[jobId]? := by
        intro jobId
        rw [q.getElem?_applyLogRecord, entryEffect, hdecode]
      rw [replay, hdecode]
      rcases ih (q.applyLogRecord entry.sequence record) entry.sequence with
        ⟨e, done, rest, herr, hsplit, hrows⟩ | ⟨hok, hrows⟩
      · refine .inl ⟨e, entry :: done, rest, herr, by rw [hsplit]; rfl, fun jobId => ?_⟩
        rw [hrows, hrow, act_logEffect_cons]
      · refine .inr ⟨by rw [hok, lastOf_cons], fun jobId => ?_⟩
        rw [hrows, hrow, act_logEffect_cons]

end Replay

/-! ### Leases -/

def JobRow.unleased (row : JobRow) : JobRow :=
  { row with state := if row.state = .leased then .pending else row.state
             leaseExpiresAtMs := none }

theorem JobRow.unleased_lease {row : JobRow} (h : row.state = .pending) (expiresAtMs : Nat) :
    (row.lease expiresAtMs).unleased = row.unleased := by
  unfold unleased lease
  rw [h]
  rfl

theorem JobRow.unleased_release {row : JobRow} (h : row.state = .leased) :
    row.release.unleased = row.unleased := by
  unfold unleased release
  rw [h]
  rfl

theorem recordEffect_unleased (jobId : String) (sequence : Nat) (record : LogRecord)
    (row : Option JobRow) :
    ((recordEffect jobId sequence record).act row).map JobRow.unleased =
      (recordEffect jobId sequence record).act (row.map JobRow.unleased) := by
  cases record with
  | command c => rfl
  | webhookEnqueue r | webhookAck id => rw [recordEffect]; split <;> rfl
  | webhookRetryScheduled id attemptsUsed nextAttemptAtMs lastError
  | webhookDeadLetter id attemptsUsed lastError =>
    rw [recordEffect]
    split
    · simp only [JobEffect.act, Option.map_map]; rfl
    · rfl

theorem logEffect_unleased {lib : Lib} (jobId : String) (entries : List StorageEntry)
    (row : Option JobRow) :
    ((logEffect lib jobId entries).act row).map JobRow.unleased =
      (logEffect lib jobId entries).act (row.map JobRow.unleased) := by
  induction entries generalizing row with
  | nil => rfl
  | cons entry entries ih =>
    rw [act_logEffect_cons, act_logEffect_cons, ih, entryEffect]
    split
    · rfl
    · rw [recordEffect_unleased]

namespace Queue

theorem getElem?_releaseExpiredLeases (q : Queue) (nowMs : Nat) (jobId : String) :
    (q.releaseExpiredLeases nowMs)[jobId]? =
      q[jobId]?.map fun row => if row.leaseExpired nowMs then row.release else row := by
  rw [releaseExpiredLeases, ExtTreeMap.getElem?_map]

def leasedIds (q : Queue) (limit nowMs : Nat) : List String := (q.dueJobs limit nowMs).map Prod.fst

variable {q : Queue} {limit nowMs : Nat}

theorem mem_dueJobs {job : String × JobRow}
    (h : job ∈ q.dueJobs limit nowMs) : q[job.1]? = some job.2 ∧ job.2.due nowMs = true := by
  have hmem := (mem_insertionSort _).1 (mem_of_mem_take h)
  obtain ⟨hrow, hdue⟩ := mem_filter.1 hmem
  exact ⟨ExtTreeMap.mem_toList_iff_getElem?_eq_some.1 hrow, hdue⟩

variable {leaseMs : Nat}

theorem mem_leaseDue {job : QueueJob} (h : job ∈ (q.leaseDue limit leaseMs nowMs).1) :
    ∃ row, q[job.jobId]? = some row ∧ row.due nowMs ∧ job = row.toJob job.jobId := by
  rw [leaseDue] at h
  split at h
  · cases h
  · obtain ⟨entry, hentry, rfl⟩ := mem_map.1 h
    obtain ⟨hrow, hdue⟩ := mem_dueJobs hentry
    exact ⟨entry.2, hrow, hdue, rfl⟩

theorem leasedIds_of_mem {job : QueueJob}
    (h : job ∈ (q.leaseDue limit leaseMs nowMs).1) : job.jobId ∈ q.leasedIds limit nowMs := by
  rw [leaseDue] at h
  split at h
  · cases h
  · obtain ⟨entry, hentry, rfl⟩ := mem_map.1 h
    exact mem_map_of_mem hentry

theorem exists_job_of_leasedIds {jobId : String} (h : jobId ∈ q.leasedIds limit nowMs) :
    ∃ job ∈ (q.leaseDue limit leaseMs nowMs).1, job.jobId = jobId := by
  obtain ⟨entry, hentry, rfl⟩ := mem_map.1 h
  have hlimit : limit ≠ 0 := by
    rintro rfl
    cases hentry
  rw [leaseDue, if_neg hlimit]
  exact ⟨_, mem_map_of_mem hentry, rfl⟩

theorem nodup_leaseDue (q : Queue) (limit leaseMs nowMs : Nat) :
    ((q.leaseDue limit leaseMs nowMs).1.map QueueJob.jobId).Nodup := by
  have hkeys : (q.toList.map Prod.fst).Nodup := by
    rw [ExtTreeMap.map_fst_toList_eq_keys]
    exact ExtTreeMap.nodup_keys
  have hdue : ((q.dueJobs limit nowMs).map Prod.fst).Nodup := by
    have hfiltered := hkeys.sublist (List.Sublist.map Prod.fst (filter_sublist
      (p := fun job : String × JobRow => job.2.due nowMs)))
    have hsorted := ((perm_insertionSort earlier _).map Prod.fst).nodup_iff.2 hfiltered
    exact hsorted.sublist ((take_sublist _ _).map Prod.fst)
  rw [leaseDue]
  split
  · exact nodup_nil
  · rw [map_map]
    exact hdue

theorem getElem?_foldl_modify {f : JobRow → JobRow} (hf : ∀ row, f (f row) = f row)
    (jobs : List (String × JobRow)) (q : Queue) (jobId : String) :
    (jobs.foldl (fun q job => q.modify job.1 f) q)[jobId]? =
      if jobId ∈ jobs.map Prod.fst then q[jobId]?.map f else q[jobId]? := by
  induction jobs generalizing q with
  | nil => rfl
  | cons job jobs ih =>
    rw [foldl_cons, ih, ExtTreeMap.getElem?_modify, map_cons]
    by_cases hjob : job.1 = jobId
    · subst hjob
      have hff : f ∘ f = f := funext hf
      by_cases hmem : job.1 ∈ jobs.map Prod.fst <;> simp [hmem, hff]
    · have hne : ¬ jobId = job.1 := fun h => hjob h.symm
      simp only [mem_cons, hne, false_or, Std.compare_eq_iff_eq, hjob, if_false]

theorem getElem?_leaseDue (q : Queue) (limit leaseMs nowMs : Nat) (jobId : String) :
    (q.leaseDue limit leaseMs nowMs).2[jobId]? =
      if jobId ∈ q.leasedIds limit nowMs then q[jobId]?.map (·.lease (leaseEnd nowMs leaseMs))
      else q[jobId]? := by
  rw [leaseDue]
  split
  next hlimit =>
    subst hlimit
    rfl
  · exact getElem?_foldl_modify (f := (·.lease (leaseEnd nowMs leaseMs))) (fun _ => rfl) _ _ _

theorem unleased_releaseExpiredLeases (q : Queue) (nowMs : Nat) (jobId : String) :
    ((q.releaseExpiredLeases nowMs)[jobId]?).map JobRow.unleased =
      (q[jobId]?).map JobRow.unleased := by
  rw [getElem?_releaseExpiredLeases, Option.map_map]
  congr 1
  funext row
  dsimp only [Function.comp]
  split
  next hexpired =>
    exact JobRow.unleased_release (of_decide_eq_true (Bool.and_eq_true_iff.1 hexpired).1)
  · rfl

theorem unleased_leaseDue (q : Queue) (limit leaseMs nowMs : Nat) (jobId : String) :
    ((q.leaseDue limit leaseMs nowMs).2[jobId]?).map JobRow.unleased =
      (q[jobId]?).map JobRow.unleased := by
  rw [getElem?_leaseDue]
  split
  next hleased =>
    obtain ⟨⟨id, row⟩, hjob, rfl⟩ := mem_map.1 hleased
    obtain ⟨hrow, hdue⟩ := mem_dueJobs hjob
    rw [hrow, Option.map_some, Option.map_some, Option.map_some,
      JobRow.unleased_lease (of_decide_eq_true (Bool.and_eq_true_iff.1 hdue).1)]
  · rfl

end Queue

/-! ### Where a row comes from -/

theorem created_recordEffect {jobId : String} {sequence : Nat} {record : LogRecord}
    {row : Option JobRow} {row' : JobRow}
    (h : (recordEffect jobId sequence record).act row = some row') :
    (∃ r, row = some r ∧ row'.createdFromSequence = r.createdFromSequence) ∨
      (∃ r, record = .webhookEnqueue r ∧ r.jobId = jobId) ∧
        row'.createdFromSequence = sequence := by
  have hpatch : ∀ p : Patch, (JobEffect.patch p).act row = some row' →
      ∃ r, row = some r ∧ row'.createdFromSequence = r.createdFromSequence := by
    intro p hact
    obtain ⟨r, hr, rfl⟩ := Option.map_eq_some_iff.1 hact
    exact ⟨r, hr, rfl⟩
  unfold recordEffect at h
  cases record with
  | command c => exact .inl ⟨row', h, rfl⟩
  | webhookEnqueue r =>
    dsimp only at h
    split at h
    next hid =>
      cases h
      exact .inr ⟨⟨r, rfl, hid⟩, rfl⟩
    · exact .inl ⟨row', h, rfl⟩
  | webhookAck id =>
    dsimp only at h
    split at h
    · cases h
    · exact .inl ⟨row', h, rfl⟩
  | webhookRetryScheduled id attemptsUsed nextAttemptAtMs lastError
  | webhookDeadLetter id attemptsUsed lastError =>
    dsimp only at h
    split at h
    · exact .inl (hpatch _ h)
    · exact .inl ⟨row', h, rfl⟩

theorem created_logEffect {lib : Lib} {jobId : String} {entries : List StorageEntry}
    {row : Option JobRow} {row' : JobRow} (h : (logEffect lib jobId entries).act row = some row') :
    (∃ r, row = some r ∧ row'.createdFromSequence = r.createdFromSequence) ∨
      ∃ entry ∈ entries, row'.createdFromSequence = entry.sequence := by
  induction entries generalizing row with
  | nil => exact .inl ⟨row', h, rfl⟩
  | cons entry entries ih =>
    rw [act_logEffect_cons] at h
    rcases ih h with ⟨mid, hmid, hcreated⟩ | ⟨e, he, hcreated⟩
    · rw [entryEffect] at hmid
      split at hmid
      · exact .inl ⟨mid, hmid, hcreated⟩
      · rcases created_recordEffect hmid with ⟨r, hr, hsame⟩ | ⟨-, hseq⟩
        · exact .inl ⟨r, hr, hcreated.trans hsame⟩
        · exact .inr ⟨entry, mem_cons_self, hcreated.trans hseq⟩
    · exact .inr ⟨e, mem_cons_of_mem _ he, hcreated⟩

end LatLng.Webhook
