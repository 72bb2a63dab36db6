import LatLng.Webhook.Sample

/-! FLUSHDB as the server coordinates it with the dispatcher: it takes the gate, empties the
database and the queue, and starts a new epoch before it gives the gate back. -/

namespace LatLng.Webhook

open LatLng.Core Storage LatLng.Lib List

inductive FlushPhase where
  | idle
  | held
  /-- Collections and log are empty. `last` is the largest number given out before. -/
  | cut (last : Nat)
  | cleared (last : Nat)
  | bumped (last : Nat)

structure Coordinated where
  outbox : Outbox
  flush : FlushPhase := .idle
  /-- Jobs up to this number were enqueued before a flush that has returned. -/
  barrier : Nat := 0

inductive FlushAction where
  | outbox (action : OutboxAction)
  | flushBegin
  | flushDb (ctx : Ctx)
  | flushReset
  | flushBump
  | flushReturn

variable (lib : Lib)

def Attempt.holdsGate (attempt : Attempt) : Bool :=
  match attempt.progress with
  | .delivering => true
  | _ => false

namespace Coordinated

def step (action : FlushAction) (c : Coordinated) : Option Coordinated :=
  match action, c.flush with
  | .outbox action, _ => (c.outbox.step lib action).map fun outbox => { c with outbox }
  | .flushBegin, .idle =>
    if c.outbox.inFlight.any Attempt.holdsGate then none
    else some { c with outbox := { c.outbox with flushing := true }, flush := .held }
  | .flushDb ctx, .held =>
    match c.outbox.db.flushdb lib ctx with
    | (.error _, db) =>
      some { c with outbox := { c.outbox with db, flushing := false }, flush := .idle }
    | (.ok (), db) => some { c with outbox := { c.outbox with db }, flush := .cut db.nextSequence }
  | .flushReset, .cut last =>
    some { c with outbox := { c.outbox with queue := c.outbox.queue.reset }, flush := .cleared last }
  | .flushBump, .cleared last =>
    some { c with outbox := { c.outbox with epoch := c.outbox.epoch + 1 }, flush := .bumped last }
  | .flushReturn, .bumped last =>
    some { outbox := { c.outbox with flushing := false }, flush := .idle, barrier := last }
  | _, _ => none

inductive Moves (c : Coordinated) : FlushAction → Coordinated → Prop
  | outbox {action : OutboxAction} {s' : Outbox} (h : c.outbox.Moves lib action s') :
    Moves c (.outbox action) { c with outbox := s' }
  | begin (hflush : c.flush = .idle)
    (hfree : ∀ attempt ∈ c.outbox.inFlight, attempt.holdsGate = false) :
    Moves c .flushBegin { c with outbox := { c.outbox with flushing := true }, flush := .held }
  | refused {ctx : Ctx} {e : CoreError} {db : Db} (hflush : c.flush = .held)
    (h : c.outbox.db.flushdb lib ctx = (.error e, db)) :
    Moves c (.flushDb ctx)
      { c with outbox := { c.outbox with db, flushing := false }, flush := .idle }
  | cut {ctx : Ctx} {db : Db} (hflush : c.flush = .held)
    (h : c.outbox.db.flushdb lib ctx = (.ok (), db)) :
    Moves c (.flushDb ctx) { c with outbox := { c.outbox with db }, flush := .cut db.nextSequence }
  | reset {last : Nat} (hflush : c.flush = .cut last) :
    Moves c .flushReset { c with outbox := { c.outbox with queue := ∅ }, flush := .cleared last }
  | bump {last : Nat} (hflush : c.flush = .cleared last) :
    Moves c .flushBump
      { c with outbox := { c.outbox with epoch := c.outbox.epoch + 1 }, flush := .bumped last }
  | finish {last : Nat} (hflush : c.flush = .bumped last) :
    Moves c .flushReturn
      { outbox := { c.outbox with flushing := false }, flush := .idle, barrier := last }

variable {lib}

theorem moves_of_step {action : FlushAction} {c c' : Coordinated}
    (h : c.step lib action = some c') : c.Moves lib action c' := by
  unfold step at h
  split at h
  · obtain ⟨s', hs', rfl⟩ := Option.map_eq_some_iff.1 h
    exact .outbox (Outbox.moves_of_step hs')
  next hflush =>
    split at h
    · cases h
    next hfree =>
      cases h
      refine .begin hflush fun attempt ha => Bool.eq_false_iff.2 fun hholds => hfree ?_
      exact any_eq_true.2 ⟨attempt, ha, hholds⟩
  next ctx hflush =>
    split at h
    next e db hdb =>
      cases h
      exact .refused hflush hdb
    next db hdb =>
      cases h
      exact .cut hflush hdb
  next last hflush =>
    cases h
    exact .reset hflush
  next last hflush =>
    cases h
    exact .bump hflush
  next last hflush =>
    cases h
    exact .finish hflush
  · cases h

end Coordinated

/-! ### Jobs from before the flush -/

variable {lib}

structure Newer (b : Nat) (s : Outbox) : Prop where
  entries : ∀ entry ∈ tailOf s.db.storage.entries 0, b < entry.sequence
  rows : ∀ (jobId : String) row, s.queue[jobId]? = some row → b < row.createdFromSequence
  hand : ∀ p ∈ s.hand, b < p.1.createdFromSequence
  inFlight : ∀ a ∈ s.inFlight, a.epoch = s.epoch → b < a.job.createdFromSequence
  next : b ≤ s.db.nextSequence

theorem mem_tailOf_zero {entries : List StorageEntry} {n : Nat} {entry : StorageEntry}
    (h : entry ∈ tailOf entries n) : entry ∈ tailOf entries 0 := by
  obtain ⟨hmem, hlt⟩ := mem_filter.1 h
  exact mem_filter.2 ⟨hmem, decide_eq_true ((Nat.zero_le n).trans_lt (of_decide_eq_true hlt))⟩

theorem newer_entries {db db' : Db} {P : StorageEntry → Prop} {b : Nat}
    (h : ∀ entry ∈ tailOf db.storage.entries 0, b < entry.sequence) (hnext : b ≤ db.nextSequence)
    (hlog : db.Extends P db') : ∀ entry ∈ tailOf db'.storage.entries 0, b < entry.sequence := by
  intro entry he
  obtain ⟨hmem, hlt⟩ := mem_filter.1 he
  rcases hlog.lt_of_mem hnext hmem with hold | hnew
  · exact h entry (mem_filter.2 ⟨hold, hlt⟩)
  · exact hnew

variable {s s' : Outbox} {action : OutboxAction}

theorem Newer.step {b : Nat} (h : Newer b s) (hm : s.Moves lib action s') : Newer b s' where
  entries := newer_entries h.entries h.next hm.log
  rows := by
    intro jobId row' hrow
    rcases hm.rows hrow with ⟨row, hold, hcreated⟩ | ⟨entry, he, hcreated⟩
    · rw [hcreated]
      exact h.rows jobId row hold
    · rw [hcreated]
      exact h.entries entry (mem_tailOf_zero he)
  hand := by
    intro p hp
    rcases hm.hand hp with hold | ⟨-, row, hrow, -, heq⟩
    · exact h.hand p hold
    · rw [heq]
      exact h.rows _ row hrow
  inFlight := by
    intro a ha hepoch
    rw [hm.frame.1] at hepoch
    rcases hm.attempts ha with ⟨old, hold, heq⟩ | ⟨p, hp, rfl⟩
    · rw [heq] at hepoch ⊢
      exact h.inFlight old hold hepoch
    · exact h.hand p hp
  next := h.next.trans hm.log.sequence

/-- The state while a flush is under way: the dispatcher has nothing in hand and waits for
the gate, and the log begins behind the flush. -/
structure Closing (last : Nat) (s : Outbox) : Prop where
  gate : s.flushing = true
  hand : s.hand = []
  entries : ∀ entry ∈ tailOf s.db.storage.entries 0, last < entry.sequence
  next : last ≤ s.db.nextSequence

theorem Outbox.Moves.hand_nil (hm : s.Moves lib action s')
    (hgate : s.flushing) (hhand : s.hand = []) : s'.hand = [] := by
  refine eq_nil_iff_forall_not_mem.2 fun p hp => ?_
  rcases hm.hand hp with hold | ⟨hfree, -⟩
  · rw [hhand] at hold
    cases hold
  · rw [hgate] at hfree
    cases hfree

theorem Outbox.Moves.queue_of_flushing (hm : s.Moves lib action s') (hgate : s.flushing) :
    s'.queue = s.queue ∧ s'.lastAppliedSequence = s.lastAppliedSequence := by
  cases hm with
  | applyLogTail h => cases hgate.symm.trans h
  | releaseExpiredLeases h => cases hgate.symm.trans h
  | leaseDue limit config h => cases hgate.symm.trans h
  | begin hk hprogress h => cases hgate.symm.trans h
  | finish config ctx hk hprogress h => cases hgate.symm.trans h
  | _ => exact ⟨rfl, rfl⟩

theorem Closing.step {last : Nat} (h : Closing last s)
    (hm : s.Moves lib action s') : Closing last s' where
  gate := hm.frame.2.1.trans h.gate
  hand := hm.hand_nil h.gate h.hand
  entries := newer_entries h.entries h.next hm.log
  next := h.next.trans hm.log.sequence

namespace Coordinated

/-- FLUSHDB takes the gate only when the dispatcher is not between leasing jobs and reading
the epoch for them. -/
def HandEmpty (action : FlushAction) (c : Coordinated) : Prop :=
  match action with
  | .flushBegin => c.outbox.hand = []
  | _ => True

structure Inv (c : Coordinated) : Prop where
  epochs : ∀ a ∈ c.outbox.inFlight, a.epoch ≤ c.outbox.epoch
  phase : match c.flush with
    | .idle => c.outbox.flushing = false ∧ Newer c.barrier c.outbox
    | .held => c.outbox.flushing = true ∧ c.outbox.hand = [] ∧ Newer c.barrier c.outbox
    | .cut last => Closing last c.outbox
    | .cleared last => Closing last c.outbox ∧ c.outbox.queue = ∅
    | .bumped last => Closing last c.outbox ∧ c.outbox.queue = ∅ ∧
        ∀ a ∈ c.outbox.inFlight, a.epoch < c.outbox.epoch

variable {c : Coordinated}

theorem Inv.start {db : Db} {nowMs : Nat}
    (h : Outbox.rebuildWebhookQueueFromLog lib db nowMs = .ok s) : Inv { outbox := s } := by
  obtain ⟨storage, queue, hsame, hrows, rfl⟩ := Outbox.rebuild_cases h
  refine ⟨fun a ha => (nomatch ha), rfl, ?_⟩
  have hentries : ∀ entry ∈ tailOf db.storage.entries 0, 0 < entry.sequence :=
    fun entry he => of_decide_eq_true (mem_filter.1 he).2
  refine ⟨?_, fun jobId row hrow => ?_, fun p hp => (nomatch hp), fun a ha => (nomatch ha),
    Nat.zero_le _⟩
  · rw [hsame.entries]
    exact hentries
  · rcases created_logEffect ((hrows jobId).symm.trans hrow) with ⟨r, hr, -⟩ | ⟨entry, he, hcreated⟩
    · cases hr
    · rw [hcreated]
      exact hentries entry he

theorem Inv.outbox {s' : Outbox} (h : c.Inv)
    (hm : c.outbox.Moves lib action s') : Inv { c with outbox := s' } := by
  obtain ⟨s, flush, barrier⟩ := c
  obtain ⟨hepochs, hphase⟩ := h
  have hepoch := hm.frame.1
  have hgate := hm.frame.2.1
  refine ⟨fun a ha => ?_, ?_⟩
  · rw [hepoch]
    rcases hm.attempts ha with ⟨old, hold, heq⟩ | ⟨p, hp, rfl⟩
    · rw [heq]
      exact hepochs old hold
    · exact le_rfl
  · cases flush with
    | idle => exact ⟨hgate.trans hphase.1, hphase.2.step hm⟩
    | held =>
      obtain ⟨hflushing, hhand, hnewer⟩ := hphase
      exact ⟨hgate.trans hflushing, hm.hand_nil hflushing hhand, hnewer.step hm⟩
    | cut last => exact hphase.step hm
    | cleared last =>
      obtain ⟨hclosing, hqueue⟩ := hphase
      exact ⟨hclosing.step hm, (hm.queue_of_flushing hclosing.gate).1.trans hqueue⟩
    | bumped last =>
      obtain ⟨hclosing, hqueue, hold⟩ := hphase
      refine ⟨hclosing.step hm, (hm.queue_of_flushing hclosing.gate).1.trans hqueue, ?_⟩
      intro a ha
      rw [hepoch]
      rcases hm.attempts ha with ⟨b, hb, heq⟩ | ⟨p, hp, -⟩
      · rw [heq]
        exact hold b hb
      · rw [hclosing.hand] at hp
        cases hp

theorem Inv.step {action : FlushAction} {c' : Coordinated} (h : c.Inv)
    (hcond : HandEmpty action c) (hstep : c.step lib action = some c') : c'.Inv := by
  have hphase := h.phase
  cases moves_of_step hstep with
  | outbox hm => exact h.outbox hm
  | begin hflush hfree =>
    rw [hflush] at hphase
    obtain ⟨-, hnewer⟩ := hphase
    exact ⟨h.epochs, rfl, hcond, hnewer.entries, hnewer.rows, hnewer.hand, hnewer.inFlight,
      hnewer.next⟩
  | @refused ctx e db hflush hdb =>
    rw [hflush] at hphase
    obtain ⟨-, -, hnewer⟩ := hphase
    have hgrows : c.outbox.db.Grows lib db := by
      rcases c.outbox.db.flushdb_cases lib ctx with ⟨-, -, hgrows⟩ | ⟨hok, -⟩
      · rwa [hdb] at hgrows
      · rw [hdb] at hok
        cases hok
    exact ⟨h.epochs, rfl, newer_entries hnewer.entries hnewer.next hgrows, hnewer.rows, hnewer.hand,
      hnewer.inFlight, hnewer.next.trans hgrows.sequence⟩
  | @cut ctx db hflush hdb =>
    rw [hflush] at hphase
    obtain ⟨hgate, hhand, -⟩ := hphase
    have hempty : db.storage.entries = [] := by
      rcases c.outbox.db.flushdb_cases lib ctx with ⟨e, he, -⟩ | ⟨-, hempty, -⟩
      · rw [hdb] at he
        cases he
      · rwa [hdb] at hempty
    refine ⟨h.epochs, hgate, hhand, ?_, le_rfl⟩
    intro entry he
    rw [hempty] at he
    cases he
  | reset hflush =>
    rw [hflush] at hphase
    exact ⟨h.epochs, ⟨hphase.gate, hphase.hand, hphase.entries, hphase.next⟩, rfl⟩
  | bump hflush =>
    rw [hflush] at hphase
    obtain ⟨hclosing, hqueue⟩ := hphase
    refine ⟨fun a ha => (h.epochs a ha).trans (Nat.le_succ _),
      ⟨hclosing.gate, hclosing.hand, hclosing.entries, hclosing.next⟩, hqueue,
      fun a ha => Nat.lt_succ_of_le (h.epochs a ha)⟩
  | finish hflush =>
    rw [hflush] at hphase
    obtain ⟨hclosing, hqueue, hold⟩ := hphase
    refine ⟨h.epochs, rfl, hclosing.entries, fun jobId row hrow => ?_, fun p hp => ?_,
      fun a ha hepoch => ?_, hclosing.next⟩
    · rw [hqueue] at hrow
      simp at hrow
    · rw [hclosing.hand] at hp
      cases hp
    · exact absurd hepoch (Nat.ne_of_lt (hold a ha))

/-- A flush that takes the gate while the dispatcher has no job in hand is a barrier: no job
from before it is delivered any more, and no outcome of such a job is logged. -/
theorem flush_is_barrier {db : Db} {nowMs : Nat}
    (hstart : Outbox.rebuildWebhookQueueFromLog lib db nowMs = .ok s) {schedule : List FlushAction}
    (hmeet : StepsMeet (Coordinated.step lib) HandEmpty schedule { outbox := s })
    (hrun : runSteps (Coordinated.step lib) schedule { outbox := s } = some c)
    {k : Nat} {attempt : Attempt} (hk : c.outbox.inFlight[k]? = some attempt)
    (hbefore : attempt.job.createdFromSequence ≤ c.barrier) :
    (∀ s', c.outbox.step lib (.begin k) = some s' → s'.begun = c.outbox.begun) ∧
      ∀ config ctx s', c.outbox.step lib (.finish k config ctx) = some s' →
        s'.db.storage.entries = c.outbox.db.storage.entries := by
  have hinv := runSteps_invariant (fun _ _ _ h hcond hstep => Inv.step h hcond hstep)
    (Inv.start hstart) hmeet hrun
  -- while a flush holds the gate neither step is possible, and afterwards the epoch is newer
  have hstale : c.outbox.flushing = false → attempt.epoch ≠ c.outbox.epoch := by
    intro hgate hepoch
    have hphase := hinv.phase
    split at hphase
    · exact absurd (hphase.2.inFlight attempt (mem_of_getElem? hk) hepoch) (by omega)
    · exact absurd (hgate.symm.trans hphase.1) Bool.false_ne_true
    · exact absurd (hgate.symm.trans hphase.gate) Bool.false_ne_true
    · exact absurd (hgate.symm.trans hphase.1.gate) Bool.false_ne_true
    · exact absurd (hgate.symm.trans hphase.1.gate) Bool.false_ne_true
  constructor
  · intro s' hstep
    cases Outbox.moves_of_step hstep with
    | begin hk' hprogress hgate =>
      cases hk.symm.trans hk'
      rw [Outbox.begin, if_pos (hstale hgate)]
      rfl
  · intro config ctx s' hstep
    cases Outbox.moves_of_step hstep with
    | finish _ _ hk' hprogress hgate =>
      cases hk.symm.trans hk'
      rw [Outbox.finalizeWebhookAttempt, if_pos (hstale hgate)]
    | forget _ _ hk' hprogress => rfl

open Sample Core.Sample in
/-- The epoch of the attempt was read before the flush: the attempt is skipped. -/
theorem flush_skips_spawned :
    let schedule := [.outbox (.leaseDue 1 quickConfig), .outbox .spawn, .flushBegin,
      .flushDb sampleCtx, .flushReset, .flushBump, .flushReturn]
    ∃ c, runSteps (Coordinated.step jobLib) schedule { outbox := jobOutbox } = some c ∧
      c.barrier = 2 ∧ ∀ s', c.outbox.step jobLib (.begin 0) = some s' → s'.begun = [] := by
  intro schedule
  have hmeet : StepsMeet (Coordinated.step jobLib) HandEmpty schedule { outbox := jobOutbox } := by
    refine stepsMeet_of_checkSteps
      (fun action c => match action with
        | .flushBegin => c.outbox.hand.isEmpty
        | _ => true) (fun action c hcheck => ?_) rfl
    cases action with
    | flushBegin => exact isEmpty_iff.1 hcheck
    | _ => trivial
  refine ⟨_, rfl, rfl, ?_⟩
  exact (flush_is_barrier rebuild_jobDb hmeet rfl (k := 0) rfl (by decide)).1

open Sample Core.Sample in
/-- The flush comes between the lease and the read of the epoch: the job is delivered after
the flush has returned, and its outcome goes to the log. -/
theorem flush_misses_job_in_hand :
    let schedule := [.outbox (.leaseDue 1 quickConfig), .flushBegin, .flushDb sampleCtx,
      .flushReset, .flushBump, .flushReturn, .outbox .spawn]
    ∃ c attempt, runSteps (Coordinated.step jobLib) schedule { outbox := jobOutbox } = some c ∧
      c.outbox.inFlight[0]? = some attempt ∧ attempt.job.createdFromSequence ≤ c.barrier ∧
      ∃ s s', runSteps (Outbox.step jobLib) [.begin 0, .deliver 0 .delivered] c.outbox = some s ∧
        s.begun = [attempt.job.jobId] ∧
        s.step jobLib (.finish 0 quickConfig sampleCtx) = some s' ∧
        s'.db.storage.entries = [{ sequence := 3, timestampNs := 0, command := [8] }] := by
  refine ⟨_, _, rfl, rfl, by decide, _, _, rfl, rfl, rfl, rfl⟩

end Coordinated

end LatLng.Webhook
