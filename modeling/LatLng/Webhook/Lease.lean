import LatLng.Webhook.Sample

/-! Leases. A job that was handed out stays out of the reach of the dispatcher until its lease
has run out, unless a record of the log makes it pending again before. -/

namespace LatLng.Webhook

open LatLng.Core Storage LatLng.Lib List

variable {lib : Lib}

namespace Outbox

def outstanding (s : Outbox) : List Attempt :=
  s.inFlight ++ s.hand.map fun p =>
    { job := p.1, leaseExpiresAtMs := p.2, epoch := s.epoch, progress := .spawned }

def leased (s : Outbox) (limit : Nat) (config : OutboxConfig) : List Attempt :=
  (s.queue.leaseDue limit config.webhookLeaseMs s.nowMs).1.map fun job =>
    { job, epoch := s.epoch, progress := .spawned
      leaseExpiresAtMs := Queue.leaseEnd s.nowMs config.webhookLeaseMs }

variable {s s' : Outbox} {action : OutboxAction}

theorem outstanding_spawn (s : Outbox) : s.spawn.outstanding = s.outstanding := by
  rw [outstanding, outstanding, spawn, map_nil, append_nil]

theorem outstanding_leaseDue (s : Outbox) (limit : Nat) (config : OutboxConfig) :
    (s.leaseDue limit config.webhookLeaseMs).outstanding =
      s.outstanding ++ s.leased limit config := by
  rw [outstanding, outstanding, leased, leaseDue, map_append, map_map, append_assoc]
  rfl

variable {k : Nat} {a : Attempt}

theorem getElem?_outstanding (h : s.inFlight[k]? = some a) :
    s.outstanding[k]? = some a := by
  rw [outstanding, List.getElem?_append_left (List.getElem?_eq_some_iff.1 h).1, h]

theorem outstanding_setProgress (h : s.inFlight[k]? = some a) (progress : Progress) :
    (s.setProgress k a progress).outstanding = s.outstanding.set k { a with progress } := by
  rw [outstanding, outstanding, List.set_append_left _ _ (List.getElem?_eq_some_iff.1 h).1]
  rfl

theorem outstanding_eraseIdx (h : s.inFlight[k]? = some a) :
    { s with inFlight := s.inFlight.eraseIdx k }.outstanding = s.outstanding.eraseIdx k := by
  rw [outstanding, outstanding,
    List.eraseIdx_append_of_lt_length (List.getElem?_eq_some_iff.1 h).1]

theorem outstanding_applyLogTail (s : Outbox) :
    (s.applyLogTail lib).2.outstanding = s.outstanding := by
  obtain ⟨db, queue, last, heq⟩ := @applyLogTail_frame lib s
  rw [heq]
  rfl

theorem outstanding_finalizeWebhookAttempt (s : Outbox) (config : OutboxConfig) (ctx : Ctx)
    (attempt : Attempt) (outcome : DeliveryOutcome) :
    (s.finalizeWebhookAttempt lib config ctx attempt outcome).outstanding = s.outstanding := by
  obtain ⟨db, queue, heq⟩ := @finalizeWebhookAttempt_frame lib s config ctx attempt outcome
  rw [heq]
  rfl

theorem mem_set_of_ne {α : Type} {as : List α} {a b x : α} (hk : as[k]? = some a)
    (hb : b ∈ as) (hne : b ≠ a) : b ∈ as.set k x := by
  obtain ⟨i, hi⟩ := mem_iff_getElem?.1 hb
  refine mem_iff_getElem?.2 ⟨i, ?_⟩
  rw [getElem?_set_ne ?_, hi]
  rintro rfl
  exact hne (Option.some.inj (hi.symm.trans hk))

theorem map_set_of_eq {α β : Type} {f : α → β} {as : List α} {a x : α}
    (hk : as[k]? = some a) (hf : f x = f a) : (as.set k x).map f = as.map f := by
  refine ext_getElem? fun i => ?_
  rw [getElem?_map, getElem?_map, getElem?_set]
  split
  next hki =>
    subst hki
    obtain ⟨hlt, rfl⟩ := List.getElem?_eq_some_iff.1 hk
    simp [hlt, hf]
  · rfl

theorem mem_eraseIdx_of_ne {α : Type} {as : List α} {a b : α} (hk : as[k]? = some a)
    (hb : b ∈ as) (hne : b ≠ a) : b ∈ as.eraseIdx k := by
  obtain ⟨i, hi⟩ := mem_iff_getElem?.1 hb
  refine mem_eraseIdx_iff_getElem?.2 ⟨i, ?_, hi⟩
  rintro rfl
  exact hne (Option.some.inj (hi.symm.trans hk))

theorem mem_set_progress {attempts : List Attempt} {b : Attempt}
    (hk : attempts[k]? = some a) {progress : Progress}
    (hb : b ∈ attempts.set k { a with progress }) :
    ∃ b' ∈ attempts, b'.job = b.job ∧ b'.leaseExpiresAtMs = b.leaseExpiresAtMs := by
  rcases mem_or_eq_of_mem_set hb with hb | rfl
  · exact ⟨b, hb, rfl, rfl⟩
  · exact ⟨a, mem_of_getElem? hk, rfl, rfl⟩

end Outbox

def LogRecord.Reopens (jobId : String) : LogRecord → Prop
  | .webhookEnqueue record => record.jobId = jobId
  | .webhookRetryScheduled id _ _ _ => id = jobId
  | _ => False

def JobRow.Guarded (row : JobRow) (expiresAtMs : Nat) : Prop :=
  row.state = .deadLetter ∨ row.state = .leased ∧ row.leaseExpiresAtMs = some expiresAtMs

variable {expiresAtMs : Nat}

theorem JobRow.Guarded.not_due {row : JobRow} (h : row.Guarded expiresAtMs)
    (nowMs : Nat) : row.due nowMs = false := by
  rw [due]
  rcases h with h | ⟨h, -⟩ <;> rw [h] <;> rfl

theorem JobRow.Guarded.not_expired {row : JobRow} {nowMs : Nat} (h : row.Guarded expiresAtMs)
    (hnow : nowMs < expiresAtMs) : row.leaseExpired nowMs = false := by
  rw [leaseExpired]
  rcases h with h | ⟨h, hexpires⟩
  · rw [h]
    rfl
  · rw [hexpires, Option.any_some, decide_eq_false (Nat.not_le.2 hnow), Bool.and_false]

theorem guarded_recordEffect {jobId : String} {sequence : Nat} {record : LogRecord}
    {row : Option JobRow} (hrecord : ¬ LogRecord.Reopens jobId record)
    (h : ∀ r, row = some r → r.Guarded expiresAtMs) {row' : JobRow}
    (hact : (recordEffect jobId sequence record).act row = some row') :
    row'.Guarded expiresAtMs := by
  unfold recordEffect at hact
  cases record with
  | command c => exact h row' hact
  | webhookEnqueue r =>
    dsimp only at hact
    rw [if_neg (show ¬ r.jobId = jobId from hrecord)] at hact
    exact h row' hact
  | webhookAck id =>
    dsimp only at hact
    split at hact
    · cases hact
    · exact h row' hact
  | webhookRetryScheduled id attemptsUsed nextAttemptAtMs lastError =>
    dsimp only at hact
    rw [if_neg (show ¬ id = jobId from hrecord)] at hact
    exact h row' hact
  | webhookDeadLetter id attemptsUsed lastError =>
    dsimp only at hact
    split at hact
    · obtain ⟨r, -, rfl⟩ := Option.map_eq_some_iff.1 hact
      exact .inl rfl
    · exact h row' hact

theorem guarded_logEffect {jobId : String} {entries : List StorageEntry}
    (hentries : ∀ entry ∈ entries, ∀ record, decodeLogRecord lib entry.command = .ok record →
      ¬ LogRecord.Reopens jobId record)
    {row : Option JobRow} (h : ∀ r, row = some r → r.Guarded expiresAtMs) {row' : JobRow}
    (hact : (logEffect lib jobId entries).act row = some row') : row'.Guarded expiresAtMs := by
  induction entries generalizing row with
  | nil => exact h row' hact
  | cons entry entries ih =>
    rw [act_logEffect_cons] at hact
    refine ih (fun e he => hentries e (mem_cons_of_mem _ he)) (fun r hr => ?_) hact
    rw [entryEffect] at hr
    split at hr
    · exact h r hr
    next record hdecode =>
      exact guarded_recordEffect (hentries entry mem_cons_self record hdecode) h hr

namespace Outbox

def Exclusive (s : Outbox) : Prop :=
  ∀ a ∈ s.outstanding, s.nowMs < a.leaseExpiresAtMs →
    ∀ row, s.queue[a.job.jobId]? = some row → row.Guarded a.leaseExpiresAtMs

variable (lib) in
/-- No record is applied that makes a job pending while an attempt at it is under a lease that
has not expired: neither when the tail is read nor when another attempt at it ends. -/
def NotReopened (action : OutboxAction) (s : Outbox) : Prop :=
  match action with
  | .applyLogTail =>
    ∀ entry ∈ tailOf s.db.storage.entries s.lastAppliedSequence, ∀ record,
      decodeLogRecord lib entry.command = .ok record → ∀ a ∈ s.outstanding,
        LogRecord.Reopens a.job.jobId record → a.leaseExpiresAtMs ≤ s.nowMs
  | .finish k config _ =>
    ∀ attempt outcome record, s.inFlight[k]? = some attempt → attempt.progress = .ended outcome →
      outcomeRecord config s.nowMs attempt.job outcome = some record →
        ∀ a ∈ s.outstanding.eraseIdx k,
          LogRecord.Reopens a.job.jobId record → a.leaseExpiresAtMs ≤ s.nowMs
  | _ => True

variable {s s' : Outbox} {action : OutboxAction}

theorem Exclusive.of_queue (h : s.Exclusive) (hnow : s.nowMs ≤ s'.nowMs)
    (hqueue : s'.queue = s.queue)
    (hattempts : ∀ a ∈ s'.outstanding, ∃ b ∈ s.outstanding,
      b.job = a.job ∧ b.leaseExpiresAtMs = a.leaseExpiresAtMs) : s'.Exclusive := by
  intro a ha hrunning row hrow
  obtain ⟨b, hb, hjob, hexpires⟩ := hattempts a ha
  rw [hqueue, ← hjob] at hrow
  rw [← hexpires] at hrunning ⊢
  exact h b hb (hnow.trans_lt hrunning) row hrow

theorem Exclusive.leaseDue (h : s.Exclusive) (limit : Nat) (config : OutboxConfig) :
    (s.leaseDue limit config.webhookLeaseMs).Exclusive := by
  intro a ha hrunning row hrow
  rw [outstanding_leaseDue] at ha
  change (s.queue.leaseDue limit config.webhookLeaseMs s.nowMs).2[a.job.jobId]? = some row at hrow
  rw [Queue.getElem?_leaseDue] at hrow
  rcases mem_append.1 ha with ha | ha
  · -- a running attempt keeps its job from being leased
    have hold := h a ha hrunning
    split at hrow
    next hleased =>
      obtain ⟨old, hold', rfl⟩ := Option.map_eq_some_iff.1 hrow
      obtain ⟨entry, hentry, hid⟩ := mem_map.1 hleased
      obtain ⟨hentryrow, hdue⟩ := Queue.mem_dueJobs hentry
      rw [hid, hold'] at hentryrow
      cases hentryrow
      exact absurd hdue (by rw [(hold _ hold').not_due]; simp)
    · exact hold row hrow
  · obtain ⟨job, hjob, rfl⟩ := mem_map.1 ha
    rw [if_pos (Queue.leasedIds_of_mem hjob)] at hrow
    obtain ⟨old, -, rfl⟩ := Option.map_eq_some_iff.1 hrow
    exact .inr ⟨rfl, rfl⟩

theorem Exclusive.step (h : s.Exclusive) (hcond : NotReopened lib action s)
    (hm : s.Moves lib action s') : s'.Exclusive := by
  have hself : ∀ a ∈ s.outstanding, ∃ b ∈ s.outstanding,
      b.job = a.job ∧ b.leaseExpiresAtMs = a.leaseExpiresAtMs := fun a ha => ⟨a, ha, rfl, rfl⟩
  cases hm with
  | tick ms => exact h.of_queue (Nat.le_add_right _ _) rfl hself
  | write ctx hw => exact h.of_queue le_rfl rfl hself
  | applyLogTail hgate =>
    intro a ha hrunning row hrow
    rw [outstanding_applyLogTail] at ha
    have hrows : ∃ done rest, tailOf s.db.storage.entries s.lastAppliedSequence = done ++ rest ∧
        (s.applyLogTail lib).2.queue[a.job.jobId]? =
          (logEffect lib a.job.jobId done).act s.queue[a.job.jobId]? := by
      obtain ⟨storage, queue, -, ⟨e, done, rest, heq, hsplit, hrows⟩ | ⟨heq, hrows⟩⟩ :=
        @applyLogTail_cases lib s
      · exact ⟨done, rest, hsplit, by rw [heq]; exact hrows _⟩
      · exact ⟨_, [], (append_nil _).symm, by rw [heq]; exact hrows _⟩
    obtain ⟨done, rest, hsplit, hact⟩ := hrows
    have hnow : (s.applyLogTail lib).2.nowMs = s.nowMs := by
      obtain ⟨db, queue, last, heq⟩ := @applyLogTail_frame lib s
      rw [heq]
    rw [hnow] at hrunning
    rw [hact] at hrow
    refine guarded_logEffect (fun entry he record hdecode hreopens => ?_)
      (fun r hr => h a ha hrunning r hr) hrow
    have hmem : entry ∈ tailOf s.db.storage.entries s.lastAppliedSequence := by
      rw [hsplit]
      exact mem_append_left _ he
    exact absurd (hcond entry hmem record hdecode a ha hreopens) (Nat.not_le.2 hrunning)
  | releaseExpiredLeases hgate =>
    intro a ha hrunning row hrow
    rw [releaseExpiredLeases, Queue.getElem?_releaseExpiredLeases] at hrow
    obtain ⟨old, hold, rfl⟩ := Option.map_eq_some_iff.1 hrow
    have hguard := h a ha hrunning old hold
    have hrunning' : old.leaseExpired s.nowMs = false := hguard.not_expired hrunning
    rw [if_neg (by rw [hrunning']; simp)]
    exact hguard
  | leaseDue limit config hgate => exact h.leaseDue limit config
  | spawn =>
    refine h.of_queue le_rfl rfl ?_
    rw [outstanding_spawn]
    exact hself
  | @begin k attempt hk =>
    obtain ⟨progress, begun, heq⟩ := s.begin_frame k attempt
    rw [heq]
    exact h.of_queue le_rfl rfl fun a ha => mem_set_progress (getElem?_outstanding hk)
      (by rw [← outstanding_setProgress hk progress]; exact ha)
  | deliver outcome hk | lose hk =>
    exact h.of_queue le_rfl rfl fun a ha => mem_set_progress (getElem?_outstanding hk)
      (by rw [← outstanding_setProgress hk]; exact ha)
  | @finish k attempt outcome config ctx hk hprogress hgate =>
    intro a ha hrunning row hrow
    rw [outstanding_finalizeWebhookAttempt, outstanding_eraseIdx hk] at ha
    have hrunning' : s.nowMs < a.leaseExpiresAtMs :=
      (Moves.frame (.finish config ctx hk hprogress hgate)).2.2.trans_lt hrunning
    have hguard := h a (mem_of_mem_eraseIdx ha) hrunning'
    rcases @finalizeWebhookAttempt_queue lib _ _ _ _ _ with
      hqueue | ⟨sequence, record, hrecord, hqueue⟩
    · rw [hqueue] at hrow
      exact hguard row hrow
    · rw [hqueue, Queue.getElem?_applyLogRecord] at hrow
      refine guarded_recordEffect (fun hreopens => ?_) hguard hrow
      have hexpired := hcond attempt outcome record hk hprogress hrecord a ha hreopens
      exact absurd hexpired (Nat.not_le.2 hrunning')
  | forget config ctx hk =>
    refine h.of_queue le_rfl rfl fun a ha => ?_
    rw [outstanding_eraseIdx hk] at ha
    exact hself a (mem_of_mem_eraseIdx ha)

/-- In every run of the dispatcher in which no record makes a job pending under a running lease,
in whatever order its steps come: a lease hands out a job once, and only if the lease of every
earlier attempt at it has expired. -/
theorem lease_exclusive {s₀ s : Outbox} (hidle : s₀.outstanding = []) {schedule : List OutboxAction}
    (hmeet : StepsMeet (Outbox.step lib) (NotReopened lib) schedule s₀)
    (hrun : runSteps (Outbox.step lib) schedule s₀ = some s) (limit : Nat) (config : OutboxConfig) :
    ((s.leased limit config).map (·.job.jobId)).Nodup ∧
      ∀ new ∈ s.leased limit config, ∀ a ∈ s.outstanding, a.job.jobId = new.job.jobId →
        a.leaseExpiresAtMs ≤ s.nowMs := by
  have hstart : s₀.Exclusive := by
    intro a ha
    rw [hidle] at ha
    cases ha
  have hinv := runSteps_invariant
    (fun _ _ _ h hcond hstep => Exclusive.step h hcond (moves_of_step hstep)) hstart hmeet hrun
  constructor
  · rw [leased, map_map]
    exact Queue.nodup_leaseDue _ _ _ _
  · intro new hnew a ha hsame
    obtain ⟨job, hjob, rfl⟩ := mem_map.1 hnew
    obtain ⟨row, hrow, hdue, -⟩ := Queue.mem_leaseDue hjob
    refine Nat.not_lt.1 fun hrunning => ?_
    have hguard := hinv a ha hrunning row (by rw [hsame]; exact hrow)
    exact absurd hdue (by rw [hguard.not_due]; simp)

open Sample in
/-- The first attempt hangs until its lease is over; then the job is leased again. -/
theorem leased_again_after_expiry :
    let schedule : List OutboxAction := [.leaseDue 1 quickConfig, .spawn, .begin 0, .applyLogTail,
      .tick 200, .releaseExpiredLeases]
    ∃ s, runSteps (Outbox.step jobLib) schedule jobOutbox = some s ∧
      (s.leased 1 quickConfig).map (·.job.jobId) = [jobId] ∧
      ∀ new ∈ s.leased 1 quickConfig, ∀ a ∈ s.outstanding, a.job.jobId = new.job.jobId →
        a.leaseExpiresAtMs ≤ s.nowMs := by
  intro schedule
  have hmeet : StepsMeet (Outbox.step jobLib) (NotReopened jobLib) schedule jobOutbox := by
    refine stepsMeet_of_checkSteps (fun action s => match action with
      | .applyLogTail => (tailOf s.db.storage.entries s.lastAppliedSequence).isEmpty
      | .finish _ _ _ => false
      | _ => true) (fun action s hcheck => ?_) rfl
    cases action with
    | applyLogTail =>
      intro entry he
      rw [isEmpty_iff.1 hcheck] at he
      cases he
    | finish k config ctx => cases hcheck
    | _ => trivial
  refine ⟨_, rfl, rfl, ?_⟩
  exact (lease_exclusive rfl hmeet rfl 1 quickConfig).2

open Sample Core.Sample in
/-- The steps of the loop, in its order. The first attempt fails and its retry record goes to the
log and to the queue; the job is leased for the second attempt; then the tail is read, the retry
record is applied once more, and the job is leased a third time next to the second attempt. -/
theorem leased_under_running_lease :
    let schedule : List OutboxAction := [.applyLogTail, .releaseExpiredLeases,
      .leaseDue 8 quickConfig, .spawn, .begin 0, .deliver 0 (.failed "refused"),
      .applyLogTail, .releaseExpiredLeases, .finish 0 quickConfig sampleCtx, .tick 1,
      .leaseDue 8 quickConfig, .spawn, .begin 0,
      .applyLogTail, .releaseExpiredLeases]
    ∃ s, runSteps (Outbox.step jobLib) schedule jobOutbox = some s ∧
      (s.leased 7 quickConfig).map (·.job.jobId) = [jobId] ∧
      s.outstanding.map (fun a => (a.job.jobId, a.leaseExpiresAtMs)) = [(jobId, 101)] ∧
      s.nowMs = 1 := by
  exact ⟨_, rfl, rfl, rfl, rfl⟩

end Outbox

end LatLng.Webhook
