import LatLng.Webhook.Lease
import LatLng.Webhook.Materialize

/-! The loop of the dispatcher, between the clients that write and then notify it and the tasks
that deliver. It reads the log tail at its head and waits for a notification at its foot. -/

namespace LatLng.Webhook

open LatLng.Core Storage LatLng.Lib List

inductive LoopPc where
  | top
  | asleep (wakeAtMs : Nat)
  | release
  | drain
  /-- Leasing up to the limit; whether a task was spawned in this iteration. -/
  | filling (limit : Nat) (spawned : Bool)
  | spawning (limit : Nat)
  | filled (limit : Nat) (spawned : Bool)
  /-- At the limit: waits for a task to end, and for nothing else. -/
  | limitWait
  | armed
  /-- Waits for a notification, for a task to end, and for the timer if there is one. -/
  | wait (timer : Option Nat)

namespace LoopPc

def listens : LoopPc → Bool
  | .armed => true
  | .wait _ => true
  | _ => false

def willRead : LoopPc → Bool
  | .top => true
  | .asleep _ => true
  | _ => false

def limit? : LoopPc → Option Nat
  | .filling limit _ => some limit
  | .spawning limit => some limit
  | .filled limit _ => some limit
  | _ => none

end LoopPc

structure Loop where
  outbox : Outbox
  pc : LoopPc := .top
  /-- The notification that the loop listens for has come. -/
  woken : Bool := false
  /-- The numbers of the records of each writer that has not notified yet. -/
  writers : List (List Nat) := []
  /-- The numbers of the records whose writer has notified. -/
  announced : List Nat := []

inductive LoopAction where
  | task (action : OutboxAction)
  | write (ctx : Ctx) (call : Call)
  | notify (writer : Nat)
  | applyLogTail
  | releaseExpiredLeases
  | finish (k : Nat) (config : OutboxConfig) (ctx : Ctx)
  | drained (config : OutboxConfig)
  | leaseDue (config : OutboxConfig)
  | spawn
  | filled
  | decide
  | look
  | wake

def OutboxAction.isTask : OutboxAction → Bool
  | .tick _ => true
  | .begin _ => true
  | .deliver _ _ => true
  | .lose _ => true
  | _ => false

def Attempt.completed (a : Attempt) : Bool :=
  match a.progress with
  | .ended _ => true
  | .lost => true
  | _ => false

variable (lib : Lib)

namespace Loop

def step (action : LoopAction) (l : Loop) : Option Loop :=
  match action, l.pc with
  | .task action, _ =>
    if action.isTask then (l.outbox.step lib action).map fun outbox => { l with outbox } else none
  | .write ctx call, _ =>
    (l.outbox.step lib (.write ctx call)).map fun outbox =>
      { l with
        outbox
        writers := l.writers ++ [(tailOf outbox.db.storage.entries l.outbox.db.nextSequence).map
          StorageEntry.sequence] }
  | .notify writer, pc =>
    l.writers[writer]?.map fun numbers =>
      { l with
        writers := l.writers.eraseIdx writer
        announced := l.announced ++ numbers
        woken := l.woken || pc.listens }
  | .applyLogTail, .top =>
    match l.outbox.applyLogTail lib with
    | (.error _, outbox) => some { l with outbox, pc := .asleep (outbox.nowMs + 250) }
    | (.ok (), outbox) => some { l with outbox, pc := .release }
  | .releaseExpiredLeases, .release =>
    some { l with outbox := l.outbox.releaseExpiredLeases, pc := .drain }
  | .finish k config ctx, .drain =>
    (l.outbox.step lib (.finish k config ctx)).map fun outbox => { l with outbox }
  | .finish k config ctx, .limitWait =>
    (l.outbox.step lib (.finish k config ctx)).map fun outbox => { l with outbox, pc := .top }
  | .finish k config ctx, .wait _ =>
    (l.outbox.step lib (.finish k config ctx)).map fun outbox => { l with outbox, pc := .top }
  | .drained config, .drain =>
    if l.outbox.inFlight.any Attempt.completed then none
    else some { l with pc := .filling config.webhookConcurrencyLimit false }
  | .leaseDue config, .filling limit spawned =>
    if l.outbox.inFlight.length < limit then
      let available := limit - l.outbox.inFlight.length
      some { l with
        outbox := l.outbox.leaseDue available config.webhookLeaseMs
        pc := if (l.outbox.leased available config).isEmpty then .filled limit spawned
          else .spawning limit }
    else none
  | .spawn, .spawning limit =>
    some { l with outbox := l.outbox.spawn, pc := .filling limit true }
  | .filled, .filling limit spawned =>
    if l.outbox.inFlight.length < limit then none else some { l with pc := .filled limit spawned }
  | .decide, .filled limit spawned =>
    if spawned then some { l with pc := .top }
    else if limit ≤ l.outbox.inFlight.length then some { l with pc := .limitWait }
    else some { l with pc := .armed, woken := false }
  | .look, .armed => some { l with pc := .wait l.outbox.queue.nextDueAtMs }
  | .wake, .wait timer =>
    if l.woken || timer.any (· ≤ l.outbox.nowMs) then some { l with pc := .top } else none
  | .wake, .asleep wakeAtMs =>
    if wakeAtMs ≤ l.outbox.nowMs then some { l with pc := .top } else none
  | _, _ => none

/-- Only a notification or the end of a task gets the loop going again, and no notification has
come. -/
def WaitsWithoutTimer (l : Loop) : Prop :=
  l.pc = .limitWait ∨ l.pc = .wait none ∧ l.woken = false

end Loop

variable {lib}

/-! ### Leased rows have an attempt -/

variable {jobId : String} {row : Option JobRow} {row' : JobRow}

theorem recordEffect_leased {sequence : Nat} {record : LogRecord}
    (h : (recordEffect jobId sequence record).act row = some row')
    (hleased : row'.state = .leased) : row = some row' := by
  unfold recordEffect at h
  cases record with
  | command c => exact h
  | webhookEnqueue r =>
    dsimp only at h
    split at h
    · cases h
      cases hleased
    · exact h
  | webhookAck id =>
    dsimp only at h
    split at h
    · cases h
    · exact h
  | webhookRetryScheduled id attemptsUsed nextAttemptAtMs lastError
  | webhookDeadLetter id attemptsUsed lastError =>
    dsimp only at h
    split at h
    · obtain ⟨r, -, rfl⟩ := Option.map_eq_some_iff.1 h
      cases hleased
    · exact h

theorem logEffect_leased {entries : List StorageEntry}
    (h : (logEffect lib jobId entries).act row = some row')
    (hleased : row'.state = .leased) : row = some row' := by
  induction entries generalizing row with
  | nil => exact h
  | cons entry entries ih =>
    rw [act_logEffect_cons] at h
    have hmid := ih h
    rw [entryEffect] at hmid
    split at hmid
    · exact hmid
    · exact recordEffect_leased hmid hleased

theorem outcomeRecord_not_leased {config : OutboxConfig} {nowMs : Nat} {job : QueueJob}
    {outcome : DeliveryOutcome} {record : LogRecord}
    (h : outcomeRecord config nowMs job outcome = some record) {sequence : Nat}
    (hact : (recordEffect job.jobId sequence record).act row = some row') :
    row'.state ≠ .leased := by
  unfold outcomeRecord at h
  cases outcome with
  | skipped => cases h
  | delivered =>
    cases h
    rw [recordEffect, if_pos rfl] at hact
    cases hact
  | failed error =>
    dsimp only at h
    split at h
    all_goals
      cases h
      rw [recordEffect, if_pos rfl] at hact
      obtain ⟨r, -, rfl⟩ := Option.map_eq_some_iff.1 hact
      simp [Patch.apply]

namespace Outbox

structure Tracked (s : Outbox) : Prop where
  live : ∀ a ∈ s.outstanding, a.epoch = s.epoch ∧ a.progress ≠ .ended .skipped ∧ a.progress ≠ .lost
  held : ∀ (jobId : String) (row : JobRow), s.queue[jobId]? = some row → row.state = .leased →
    ∃ a ∈ s.outstanding, a.job.jobId = jobId

variable (lib) in
def Kept (action : OutboxAction) (s : Outbox) : Prop :=
  match action with
  | .lose _ => False
  | .finish k config ctx => s.Recorded lib k config ctx
  | _ => True

variable {s s' : Outbox} {action : OutboxAction}

theorem Tracked.start {db : Db} {nowMs : Nat}
    (h : rebuildWebhookQueueFromLog lib db nowMs = .ok s) : s.Tracked := by
  obtain ⟨storage, queue, -, hrows, rfl⟩ := rebuild_cases h
  refine ⟨fun a ha => absurd ha not_mem_nil, fun jobId row hrow hleased => ?_⟩
  have hnone := logEffect_leased ((hrows jobId).symm.trans hrow) hleased
  cases hnone

theorem Tracked.requeue (h : s.Tracked) (hepoch : s'.epoch = s.epoch)
    (hout : s'.outstanding = s.outstanding)
    (hqueue : ∀ (jobId : String) (row : JobRow), s'.queue[jobId]? = some row → row.state = .leased →
      s.queue[jobId]? = some row) : s'.Tracked := by
  refine ⟨?_, fun jobId row hrow hleased => ?_⟩
  · rw [hout, hepoch]
    exact h.live
  · rw [hout]
    exact h.held jobId row (hqueue jobId row hrow hleased) hleased

theorem Tracked.advance (h : s.Tracked) {k : Nat} {a : Attempt} (hk : s.inFlight[k]? = some a)
    {progress : Progress} (hp : progress ≠ .ended .skipped ∧ progress ≠ .lost)
    (begun : List String) : Tracked { s.setProgress k a progress with begun } := by
  have hout : { s.setProgress k a progress with begun }.outstanding =
      s.outstanding.set k { a with progress } := outstanding_setProgress hk progress
  have hk' := getElem?_outstanding hk
  refine ⟨fun b hb => ?_, fun jobId row hrow hleased => ?_⟩
  · rw [hout] at hb
    rcases mem_or_eq_of_mem_set hb with hb | rfl
    · exact h.live b hb
    · exact ⟨(h.live a (mem_of_getElem? hk')).1, hp⟩
  · rw [hout]
    obtain ⟨b, hb, hjob⟩ := h.held jobId row hrow hleased
    by_cases hba : b = a
    · subst hba
      exact ⟨_, List.mem_set (List.getElem?_eq_some_iff.1 hk').1 _, hjob⟩
    · exact ⟨b, mem_set_of_ne hk' hb hba, hjob⟩

theorem Tracked.leaseDue (h : s.Tracked) (limit : Nat) (config : OutboxConfig) :
    (s.leaseDue limit config.webhookLeaseMs).Tracked := by
  refine ⟨fun a ha => ?_, fun jobId row hrow hleased => ?_⟩
  · rw [outstanding_leaseDue] at ha
    rcases mem_append.1 ha with ha | ha
    · exact h.live a ha
    · obtain ⟨job, -, rfl⟩ := mem_map.1 ha
      exact ⟨rfl, by simp, by simp⟩
  · rw [outstanding_leaseDue]
    change (s.queue.leaseDue limit config.webhookLeaseMs s.nowMs).2[jobId]? = some row at hrow
    rw [Queue.getElem?_leaseDue] at hrow
    split at hrow
    next hmem =>
      obtain ⟨job, hjob, hid⟩ := Queue.exists_job_of_leasedIds hmem
      exact ⟨_, mem_append_right _ (mem_map_of_mem hjob), hid⟩
    · obtain ⟨a, ha, hjob⟩ := h.held jobId row hrow hleased
      exact ⟨a, mem_append_left _ ha, hjob⟩

theorem Tracked.step (h : s.Tracked) (hcond : Kept lib action s) (hm : s.Moves lib action s') :
    s'.Tracked := by
  have hframe := hm.frame.1
  cases hm with
  | applyLogTail hgate =>
    refine h.requeue hframe s.outstanding_applyLogTail
      fun jobId row hrow hleased => ?_
    obtain ⟨storage, queue, -, ⟨e, done, rest, heq, -, hrows⟩ | ⟨heq, hrows⟩⟩ :=
      @applyLogTail_cases lib s
    all_goals
      rw [heq] at hrow
      exact logEffect_leased ((hrows jobId).symm.trans hrow) hleased
  | releaseExpiredLeases hgate =>
    refine h.requeue rfl rfl fun jobId row hrow hleased => ?_
    rw [releaseExpiredLeases, Queue.getElem?_releaseExpiredLeases] at hrow
    obtain ⟨old, hold, rfl⟩ := Option.map_eq_some_iff.1 hrow
    split at hleased
    · cases hleased
    next hrunning => rw [if_neg hrunning, hold]
  | leaseDue limit config hgate => exact h.leaseDue limit config
  | spawn => exact h.requeue rfl s.outstanding_spawn fun _ _ hrow _ => hrow
  | @begin k attempt hk =>
    have hepoch := (h.live attempt (mem_of_getElem? (getElem?_outstanding hk))).1
    rw [begin, if_neg (not_not.2 hepoch)]
    exact h.advance hk ⟨by simp, by simp⟩ _
  | deliver outcome hk hprogress hattempted =>
    refine h.advance hk ⟨?_, by simp⟩ _
    intro heq
    cases heq
    exact hattempted rfl
  | lose => exact hcond.elim
  | @finish k attempt outcome config ctx hk hprogress hgate =>
    have hk' := getElem?_outstanding hk
    obtain ⟨hepoch, hattempted, -⟩ := h.live attempt (mem_of_getElem? hk')
    have hmade : outcome ≠ .skipped := by
      rintro rfl
      exact hattempted hprogress
    obtain ⟨record, hrecord⟩ := exists_outcomeRecord config s.nowMs attempt.job hmade
    obtain ⟨sequences, happend⟩ := hcond attempt outcome record hk hprogress hrecord
    have hout := outstanding_eraseIdx hk
    have hsame := @outstanding_finalizeWebhookAttempt lib
      { s with inFlight := s.inFlight.eraseIdx k } config ctx attempt outcome
    have hqueue := congrArg Outbox.queue (finalizeWebhookAttempt_eq
      (s := { s with inFlight := s.inFlight.eraseIdx k }) hepoch hrecord happend)
    refine ⟨?_, fun jobId row hrow hleased => ?_⟩
    · rw [hsame, hout, hframe]
      exact fun a ha => h.live a (mem_of_mem_eraseIdx ha)
    · rw [hsame, hout]
      rw [hqueue, Queue.getElem?_applyLogRecord] at hrow
      obtain ⟨b, hb, hjob⟩ := h.held jobId row (recordEffect_leased hrow hleased) hleased
      refine ⟨b, mem_eraseIdx_of_ne hk' hb ?_, hjob⟩
      rintro rfl
      subst hjob
      exact outcomeRecord_not_leased hrecord hrow hleased
  | forget config ctx hk hprogress =>
    exact absurd hprogress (h.live _ (mem_of_getElem? (getElem?_outstanding hk))).2.2
  | _ => exact ⟨h.live, h.held⟩

end Outbox

variable {s : Outbox}

theorem Outbox.Moves.task_frame {s' : Outbox} {action : OutboxAction}
    (h : s.Moves lib action s') (htask : action.isTask) :
    s'.queue = s.queue ∧ s'.hand = s.hand ∧ s'.lastAppliedSequence = s.lastAppliedSequence ∧
      s'.inFlight.length = s.inFlight.length := by
  cases h with
  | @begin k attempt hk =>
    obtain ⟨progress, begun, heq⟩ := s.begin_frame k attempt
    rw [heq]
    exact ⟨rfl, rfl, rfl, length_set⟩
  | tick => exact ⟨rfl, rfl, rfl, rfl⟩
  | deliver | lose => exact ⟨rfl, rfl, rfl, length_set⟩
  | _ => cases htask

theorem Outbox.Moves.finish_frame {s' : Outbox} {k : Nat} {config : OutboxConfig} {ctx : Ctx}
    (h : s.Moves lib (.finish k config ctx) s') :
    s'.hand = s.hand ∧ s'.lastAppliedSequence = s.lastAppliedSequence := by
  cases h with
  | finish config ctx hk =>
    obtain ⟨db, queue, heq⟩ := @finalizeWebhookAttempt_frame lib _ _ _ _ _
    rw [heq]
    exact ⟨rfl, rfl⟩
  | forget => exact ⟨rfl, rfl⟩

theorem le_cursor_of_applyLogTail (hinc : Increasing s.db.storage.entries)
    (h : (s.applyLogTail lib).1 = .ok ()) {entry : StorageEntry}
    (he : entry ∈ s.db.storage.entries) :
    entry.sequence ≤ (s.applyLogTail lib).2.lastAppliedSequence := by
  refine Nat.not_lt.1 fun hlt => ?_
  have hmem : entry ∈ tailOf (s.applyLogTail lib).2.db.storage.entries
      (s.applyLogTail lib).2.lastAppliedSequence := by
    refine mem_filter.2 ⟨?_, decide_eq_true hlt⟩
    rw [s.applyLogTail_entries]
    exact he
  rw [tailOf_of_applyLogTail hinc h] at hmem
  cases hmem

/-! ### The loop -/

theorem Queue.not_pending_of_nextDueAtMs {q : Queue} (h : q.nextDueAtMs = none) {row : JobRow}
    (hrow : q[jobId]? = some row) : row.state ≠ .pending := by
  intro hpending
  rw [nextDueAtMs, min?_eq_none_iff, map_eq_nil_iff, filter_eq_nil_iff] at h
  exact h (jobId, row) (Std.ExtTreeMap.mem_toList_iff_getElem?_eq_some.2 hrow)
    (decide_eq_true hpending)

namespace Loop

def Settled (l : Loop) : Prop :=
  l.pc.willRead = false ∧ (l.pc.listens = true → l.woken = false)

structure Inv (l : Loop) : Prop where
  gate : l.outbox.flushing = false
  increasing : Increasing l.outbox.db.storage.entries
  tracked : l.outbox.Tracked
  logged : ∀ numbers ∈ l.announced :: l.writers, ∀ n ∈ numbers,
    ∃ entry ∈ l.outbox.db.storage.entries, entry.sequence = n
  heard : l.Settled → ∀ n ∈ l.announced, n ≤ l.outbox.lastAppliedSequence
  hand : (∀ limit, l.pc ≠ .spawning limit) → l.outbox.hand = []
  timer : ∀ timer, l.pc = .wait timer → l.outbox.queue.nextDueAtMs = timer
  limit : ∀ limit, l.pc.limit? = some limit → 0 < limit
  busy : l.pc = .limitWait → l.outbox.inFlight ≠ []

variable (lib) in
/-- A writer notifies only while the loop listens or is about to read the log, unless its records
have been read already; no task is lost, and every outcome gets into the log. -/
def InTime (action : LoopAction) (l : Loop) : Prop :=
  match action with
  | .notify writer => ∀ numbers, l.writers[writer]? = some numbers →
      l.pc.listens = true ∨ l.pc.willRead = true ∨
        ∀ n ∈ numbers, n ≤ l.outbox.lastAppliedSequence
  | .task action => l.outbox.Kept lib action
  | .finish k config ctx => l.outbox.Recorded lib k config ctx
  | _ => True

variable {l l' : Loop} {action : LoopAction} {outbox : Outbox} {pc : LoopPc}

theorem Inv.moves (h : l.Inv) {action : OutboxAction}
    (hcond : l.outbox.Kept lib action) (hm : l.outbox.Moves lib action outbox)
    (hheard : pc.willRead = false → (pc.listens → l.woken = false) →
      ∀ n ∈ l.announced, n ≤ outbox.lastAppliedSequence)
    (hhand : (∀ limit, pc ≠ .spawning limit) → outbox.hand = [])
    (htimer : ∀ timer, pc = .wait timer → outbox.queue.nextDueAtMs = timer)
    (hlimit : ∀ limit, pc.limit? = some limit → l.pc.limit? = some limit)
    (hbusy : pc = .limitWait → outbox.inFlight ≠ []) : Inv { l with outbox, pc } := by
  obtain ⟨added, hlog, hinc, -⟩ := hm.log.log
  refine
    { gate := hm.frame.2.1.trans h.gate, increasing := hinc h.increasing
      tracked := h.tracked.step hcond hm, logged := ?_
      heard := fun hsettled => hheard hsettled.1 hsettled.2, hand := hhand, timer := htimer
      limit := fun limit hl => h.limit limit (hlimit limit hl), busy := hbusy }
  intro numbers hnumbers n hn
  obtain ⟨entry, he, hseq⟩ := h.logged numbers hnumbers n hn
  refine ⟨entry, ?_, hseq⟩
  rw [hlog]
  exact mem_append_left _ he

theorem Inv.task (h : l.Inv) {action : OutboxAction} (htask : action.isTask)
    (hcond : l.outbox.Kept lib action) (hm : l.outbox.Moves lib action outbox) :
    Inv { l with outbox } := by
  obtain ⟨hqueue, hhand, hcursor, hlength⟩ := hm.task_frame htask
  refine h.moves hcond hm ?_ ?_ ?_ (fun _ => id) fun hpc hnone => h.busy hpc ?_
  · rw [hcursor]
    exact fun hread hwoken => h.heard ⟨hread, hwoken⟩
  · rw [hhand]
    exact h.hand
  · rw [hqueue]
    exact h.timer
  · rw [← length_eq_zero_iff, ← hlength, hnone]
    rfl

theorem Inv.write (h : l.Inv) {ctx : Ctx} {call : Call} (hw : call.writes) :
    let outbox := { l.outbox with db := (l.outbox.db.call lib ctx call).2 }
    Inv { l with
      outbox
      writers := l.writers ++ [(tailOf outbox.db.storage.entries l.outbox.db.nextSequence).map
        StorageEntry.sequence] } := by
  intro outbox
  have hm : l.outbox.Moves lib (.write ctx call) outbox := .write ctx hw
  have hkept : l.outbox.Kept lib (.write ctx call) := trivial
  have hmoved : Inv { l with outbox } :=
    h.moves hkept hm (fun hread hwoken => h.heard ⟨hread, hwoken⟩) h.hand h.timer (fun _ => id)
      h.busy
  refine { hmoved with logged := fun numbers hnumbers n hn => ?_ }
  rw [← cons_append] at hnumbers
  rcases mem_append.1 hnumbers with hnumbers | hnumbers
  · exact hmoved.logged numbers hnumbers n hn
  · cases mem_singleton.1 hnumbers
    obtain ⟨entry, he, rfl⟩ := mem_map.1 hn
    exact ⟨entry, (mem_filter.1 he).1, rfl⟩

theorem Inv.notify (h : l.Inv) {writer : Nat} {numbers : List Nat}
    (hw : l.writers[writer]? = some numbers)
    (hcond : l.pc.listens ∨ l.pc.willRead ∨
      ∀ n ∈ numbers, n ≤ l.outbox.lastAppliedSequence) :
    Inv { l with
      writers := l.writers.eraseIdx writer
      announced := l.announced ++ numbers
      woken := l.woken || l.pc.listens } := by
  refine { h with logged := ?_, heard := ?_ }
  · intro ns hns n hn
    rcases mem_cons.1 hns with rfl | hns
    · rcases mem_append.1 hn with hn | hn
      · exact h.logged _ mem_cons_self n hn
      · exact h.logged _ (mem_cons_of_mem _ (mem_of_getElem? hw)) n hn
    · exact h.logged ns (mem_cons_of_mem _ (mem_of_mem_eraseIdx hns)) n hn
  · rintro ⟨hread, hwoken⟩ n hn
    have hdeaf : l.pc.listens = false := by
      cases hlistens : l.pc.listens with
      | false => rfl
      | true =>
        have := hwoken hlistens
        simp [hlistens] at this
    rcases mem_append.1 hn with hn | hn
    · exact h.heard ⟨hread, fun hlistens => absurd hlistens (by simp [hdeaf])⟩ n hn
    · rcases hcond with hlistens | hwill | hdone
      · exact absurd hlistens (by simp [hdeaf])
      · exact absurd hwill (by simp [show l.pc.willRead = false from hread])
      · exact hdone n hn

theorem settled_of_deaf (hpc : l.pc = pc) (hread : pc.willRead = false)
    (hdeaf : pc.listens = false) : l.Settled := by
  subst hpc
  exact ⟨hread, fun hlistens => absurd (hdeaf.symm.trans hlistens) Bool.false_ne_true⟩

theorem Inv.go (h : l.Inv) (pc : LoopPc) (woken : Bool)
    (hheard : pc.willRead = false → (pc.listens → woken = false) → l.Settled) (hhand : l.outbox.hand = [])
    (htimer : ∀ timer, pc = .wait timer → l.outbox.queue.nextDueAtMs = timer)
    (hlimit : ∀ limit, pc.limit? = some limit → 0 < limit)
    (hbusy : pc = .limitWait → l.outbox.inFlight ≠ []) : Inv { l with pc, woken } :=
  { h with
    heard := fun hsettled => h.heard (hheard hsettled.1 hsettled.2)
    hand := fun _ => hhand
    timer := htimer
    limit := hlimit
    busy := hbusy }

theorem Inv.finish (h : l.Inv) {k : Nat} {config : OutboxConfig} {ctx : Ctx}
    (hcond : l.outbox.Recorded lib k config ctx)
    (hstep : l.outbox.step lib (.finish k config ctx) = some outbox)
    (hhand : ∀ limit, l.pc ≠ .spawning limit)
    (hpc : pc = .top ∨ pc = l.pc ∧ l.pc = .drain) : Inv { l with outbox, pc } := by
  have hm := Outbox.moves_of_step hstep
  have hkept : l.outbox.Kept lib (.finish k config ctx) := hcond
  obtain ⟨hsame, hcursor⟩ := hm.finish_frame
  refine h.moves hkept hm (fun hread _ => ?_) (fun _ => hsame.trans (h.hand hhand))
    (fun timer heq => ?_) (fun limit hl => ?_) fun heq => ?_
  · rw [hcursor]
    rcases hpc with rfl | ⟨rfl, hdrain⟩
    · cases hread
    · exact h.heard ⟨hread, by rw [hdrain]; exact fun h => absurd h (by simp [LoopPc.listens])⟩
  · rcases hpc with rfl | ⟨rfl, hdrain⟩
    · cases heq
    · rw [hdrain] at heq
      cases heq
  · rcases hpc with rfl | ⟨rfl, -⟩
    · cases hl
    · exact hl
  · rcases hpc with rfl | ⟨rfl, hdrain⟩
    · cases heq
    · rw [hdrain] at heq
      cases heq

theorem Inv.read (h : l.Inv) (hpc : l.pc = .top)
    (hpc' : pc = .release ∧ (l.outbox.applyLogTail lib).1 = .ok () ∨ ∃ t, pc = .asleep t) :
    Inv { l with outbox := (l.outbox.applyLogTail lib).2, pc } := by
  have hm : l.outbox.Moves lib .applyLogTail (l.outbox.applyLogTail lib).2 := .applyLogTail h.gate
  have hkept : l.outbox.Kept lib .applyLogTail := trivial
  have hhand : (l.outbox.applyLogTail lib).2.hand = [] := by
    obtain ⟨db, queue, last, heq⟩ := @Outbox.applyLogTail_frame lib l.outbox
    rw [heq]
    exact h.hand (by rw [hpc]; simp)
  refine h.moves hkept hm (fun hread _ n hn => ?_) (fun _ => hhand) (fun timer heq => ?_)
    (fun limit hl => ?_) fun heq => ?_
  · rcases hpc' with ⟨rfl, hok⟩ | ⟨t, rfl⟩
    · -- every record of the log is now before the cursor
      obtain ⟨entry, he, rfl⟩ := h.logged _ mem_cons_self n hn
      exact le_cursor_of_applyLogTail h.increasing hok he
    · cases hread
  · rcases hpc' with ⟨rfl, -⟩ | ⟨t, rfl⟩ <;> cases heq
  · rcases hpc' with ⟨rfl, -⟩ | ⟨t, rfl⟩ <;> cases hl
  · rcases hpc' with ⟨rfl, -⟩ | ⟨t, rfl⟩ <;> cases heq

theorem Inv.leaseDue (lib : Lib) (h : l.Inv) (config : OutboxConfig) {limit : Nat} {spawned : Bool}
    (hpc : l.pc = .filling limit spawned) (available : Nat) :
    Inv { l with
      outbox := l.outbox.leaseDue available config.webhookLeaseMs
      pc := if (l.outbox.leased available config).isEmpty then .filled limit spawned
        else .spawning limit } := by
  have hm : l.outbox.Moves lib (.leaseDue available config)
      (l.outbox.leaseDue available config.webhookLeaseMs) := .leaseDue available config h.gate
  have hkept : l.outbox.Kept lib (.leaseDue available config) := trivial
  have hsettled := settled_of_deaf hpc rfl rfl
  refine h.moves hkept hm (fun _ _ => h.heard hsettled) (fun hnot => ?_) (fun timer heq => ?_)
    (fun n hl => ?_) fun heq => ?_
  · split at hnot
    next hempty =>
      have hnone : l.outbox.leased available config = [] := isEmpty_iff.1 hempty
      rw [Outbox.leased, map_eq_nil_iff] at hnone
      change l.outbox.hand ++ map _ (l.outbox.queue.leaseDue _ _ _).1 = []
      rw [hnone, h.hand (by rw [hpc]; simp)]
      rfl
    · exact absurd rfl (hnot limit)
  · split at heq <;> cases heq
  · rw [hpc]
    split at hl <;> exact hl
  · split at heq <;> cases heq

theorem Inv.step (h : l.Inv) (hcond : InTime lib action l) (hstep : l.step lib action = some l') :
    l'.Inv := by
  unfold Loop.step at hstep
  split at hstep
  next action _ =>
    split at hstep
    next htask =>
      obtain ⟨outbox, hmove, rfl⟩ := Option.map_eq_some_iff.1 hstep
      exact h.task htask hcond (Outbox.moves_of_step hmove)
    · cases hstep
  next ctx call _ =>
    obtain ⟨outbox, hmove, rfl⟩ := Option.map_eq_some_iff.1 hstep
    cases Outbox.moves_of_step hmove with
    | write _ hw => exact h.write hw
  next writer _ =>
    obtain ⟨numbers, hw, rfl⟩ := Option.map_eq_some_iff.1 hstep
    exact h.notify hw (hcond numbers hw)
  next hpc =>
    rcases hread : l.outbox.applyLogTail lib with ⟨_ | _, outbox⟩
    all_goals
      rw [hread] at hstep
      cases hstep
    · have hmoved : Inv { l with
          outbox := (l.outbox.applyLogTail lib).2, pc := .asleep (outbox.nowMs + 250) } :=
        h.read hpc (.inr ⟨_, rfl⟩)
      rw [hread] at hmoved
      exact hmoved
    · have hmoved : Inv { l with outbox := (l.outbox.applyLogTail lib).2, pc := .release } :=
        h.read hpc (.inl ⟨rfl, by rw [hread]⟩)
      rw [hread] at hmoved
      exact hmoved
  next hpc =>
    cases hstep
    have hm : l.outbox.Moves lib .releaseExpiredLeases l.outbox.releaseExpiredLeases :=
      .releaseExpiredLeases h.gate
    have hkept : l.outbox.Kept lib .releaseExpiredLeases := trivial
    exact h.moves hkept hm (fun _ _ => h.heard (settled_of_deaf hpc rfl rfl))
      (fun _ => h.hand (by rw [hpc]; simp)) nofun nofun nofun
  next k config ctx hpc =>
    obtain ⟨outbox, hmove, rfl⟩ := Option.map_eq_some_iff.1 hstep
    exact h.finish hcond hmove (by rw [hpc]; simp) (.inr ⟨rfl, hpc⟩)
  next k config ctx hpc =>
    obtain ⟨outbox, hmove, rfl⟩ := Option.map_eq_some_iff.1 hstep
    exact h.finish hcond hmove (by rw [hpc]; simp) (.inl rfl)
  next k config ctx timer hpc =>
    obtain ⟨outbox, hmove, rfl⟩ := Option.map_eq_some_iff.1 hstep
    exact h.finish hcond hmove (by rw [hpc]; simp) (.inl rfl)
  next config hpc =>
    split at hstep
    · cases hstep
    · cases hstep
      refine h.go _ _ (fun _ _ => settled_of_deaf hpc rfl rfl)
        (h.hand (by rw [hpc]; simp)) nofun (fun limit hl => ?_)
        nofun
      cases hl
      exact Nat.lt_of_lt_of_le Nat.one_pos (Nat.le_max_right _ _)
  next config limit spawned hpc =>
    split at hstep
    · cases hstep
      exact h.leaseDue lib config hpc _
    · cases hstep
  next limit hpc =>
    cases hstep
    have hkept : l.outbox.Kept lib .spawn := trivial
    exact h.moves hkept .spawn
      (fun _ _ => h.heard (settled_of_deaf hpc rfl rfl)) (fun _ => rfl)
      nofun (fun limit hl => by rw [hpc]; exact hl) nofun
  next limit spawned hpc =>
    split at hstep
    · cases hstep
    · cases hstep
      exact h.go _ _ (fun _ _ => settled_of_deaf hpc rfl rfl)
        (h.hand (by rw [hpc]; simp)) nofun
        (fun limit hl => h.limit limit (by rw [hpc]; exact hl)) nofun
  next limit spawned hpc =>
    have hsettled := settled_of_deaf hpc rfl rfl
    have hhand := h.hand (by rw [hpc]; simp)
    have hlimit : 0 < limit := h.limit limit (by rw [hpc]; rfl)
    split at hstep
    · cases hstep
      exact h.go _ _ (fun _ _ => hsettled) hhand nofun nofun nofun
    · split at hstep
      next hfull =>
        cases hstep
        refine h.go _ _ (fun _ _ => hsettled) hhand nofun
          nofun fun _ hnone => ?_
        rw [hnone] at hfull
        exact absurd hfull (Nat.not_le.2 hlimit)
      · cases hstep
        exact h.go _ _ (fun _ _ => hsettled) hhand nofun nofun nofun
  next hpc =>
    cases hstep
    refine h.go _ _ (fun _ hwoken => ⟨by rw [hpc]; rfl, fun _ => hwoken rfl⟩)
      (h.hand (by rw [hpc]; simp)) (fun timer heq => ?_) nofun
      nofun
    cases heq
    rfl
  -- a wake up and the end of a timer
  iterate 2
    next hpc =>
      split at hstep
      · cases hstep
        exact h.go _ _ nofun (h.hand (by rw [hpc]; simp))
          nofun nofun nofun
      · cases hstep
  · cases hstep

/-- In every run of the loop in which writers notify in time and outcomes are recorded: whenever
the loop waits without a timer, it has read every record whose writer has notified, and if nothing
is in flight, only dead letters are left in the queue. -/
theorem no_wakeup_lost {db : Db} {nowMs : Nat} {outbox : Outbox} {l : Loop}
    (hinc : Increasing db.storage.entries)
    (hstart : Outbox.rebuildWebhookQueueFromLog lib db nowMs = .ok outbox)
    {schedule : List LoopAction}
    (hmeet : StepsMeet (Loop.step lib) (InTime lib) schedule { outbox })
    (hrun : runSteps (Loop.step lib) schedule { outbox } = some l) (hwaits : l.WaitsWithoutTimer) :
    (∀ n ∈ l.announced, n ≤ l.outbox.lastAppliedSequence) ∧
      (l.outbox.inFlight = [] → ∀ (jobId : String) (row : JobRow),
        l.outbox.queue[jobId]? = some row → row.state = .deadLetter) := by
  have hinit : Inv { outbox } := by
    have htracked := Outbox.Tracked.start hstart
    obtain ⟨storage, queue, hsame, -, rfl⟩ := Outbox.rebuild_cases hstart
    refine
      { gate := rfl, increasing := ?_, tracked := htracked, logged := ?_
        heard := fun hsettled => absurd hsettled.1 (by simp [LoopPc.willRead])
        hand := fun _ => rfl
        timer := nofun
        limit := nofun
        busy := nofun }
    · dsimp only
      rw [hsame.entries]
      exact hinc
    · intro numbers hnumbers n hn
      cases mem_singleton.1 hnumbers
      cases hn
  have hinv := runSteps_invariant (fun _ _ _ h hcond hstep => Inv.step h hcond hstep) hinit hmeet
    hrun
  have hsettled : l.Settled := by
    rcases hwaits with hpc | ⟨hpc, hwoken⟩
    · exact settled_of_deaf hpc rfl rfl
    · exact ⟨by rw [hpc]; rfl, fun _ => hwoken⟩
  refine ⟨hinv.heard hsettled, fun hfree jobId row hrow => ?_⟩
  rcases hwaits with hpc | ⟨hpc, -⟩
  · exact absurd hfree (hinv.busy hpc)
  · cases hstate : row.state with
    | deadLetter => rfl
    | pending =>
      exact absurd hstate (Queue.not_pending_of_nextDueAtMs (hinv.timer none hpc) hrow)
    | leased =>
      obtain ⟨a, ha, -⟩ := hinv.tracked.held jobId row hrow hstate
      rw [Outbox.outstanding, hfree, hinv.hand (by rw [hpc]; simp)] at ha
      cases ha

open Sample Core.Sample in
/-- A SET wakes the waiting loop, which reads its job and begins to deliver it. -/
theorem set_wakes_loop :
    let schedule : List LoopAction := [.applyLogTail, .releaseExpiredLeases, .drained quickConfig,
      .leaseDue quickConfig, .decide, .look,
      .write sampleCtx (.request (setIdle "fleet" "truck")), .notify 0, .wake,
      .applyLogTail, .releaseExpiredLeases, .drained quickConfig, .leaseDue quickConfig, .spawn,
      .leaseDue quickConfig, .decide, .applyLogTail, .releaseExpiredLeases, .drained quickConfig,
      .leaseDue quickConfig, .decide, .look]
    ∃ l, runSteps (Loop.step hookLib) schedule { outbox := hookOutbox } = some l ∧
      l.WaitsWithoutTimer ∧ l.announced = [1, 2] ∧
      ∀ n ∈ l.announced, n ≤ l.outbox.lastAppliedSequence := by
  intro schedule
  have hmeet : StepsMeet (Loop.step hookLib) (InTime hookLib) schedule { outbox := hookOutbox } := by
    refine stepsMeet_of_checkSteps (fun action l => match action with
      | .notify _ => l.pc.listens
      | .task _ => false
      | .finish _ _ _ => false
      | _ => true) (fun action l hcheck => ?_) rfl
    cases action with
    | notify writer => exact fun _ _ => .inl hcheck
    | task action => cases hcheck
    | finish k config ctx => cases hcheck
    | _ => trivial
  refine ⟨_, rfl, .inr ⟨rfl, rfl⟩, rfl, ?_⟩
  exact (no_wakeup_lost increasing_nil rebuild_hookDb hmeet rfl (.inr ⟨rfl, rfl⟩)).1

open Sample Core.Sample in
/-- The SET is logged and its writer notifies after the loop has read the log tail and before it
creates the future it waits on. The loop then waits, without a timer, for a notification that has
already come. -/
theorem notification_before_wait_is_lost :
    let schedule : List LoopAction := [.applyLogTail,
      .write sampleCtx (.request (setIdle "fleet" "truck")), .notify 0, .releaseExpiredLeases,
      .drained quickConfig, .leaseDue quickConfig, .decide, .look]
    ∃ l entry, runSteps (Loop.step hookLib) schedule { outbox := hookOutbox } = some l ∧
      l.pc = .wait none ∧ l.woken = false ∧ l.outbox.inFlight = [] ∧
      entry ∈ l.outbox.db.storage.entries ∧
      decodeLogRecord hookLib entry.command = .ok (.webhookEnqueue gateRecord) ∧
      entry.sequence ∈ l.announced ∧ l.outbox.lastAppliedSequence < entry.sequence := by
  refine ⟨_, { sequence := 2, timestampNs := 0, command := [11] }, rfl, rfl, rfl, rfl, ?_, rfl, ?_,
    ?_⟩
  · exact mem_cons_of_mem _ mem_cons_self
  · exact mem_cons_of_mem _ mem_cons_self
  · exact Nat.two_pos

end Loop

end LatLng.Webhook
