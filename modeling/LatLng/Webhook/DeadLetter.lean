import LatLng.Webhook.Lease
import LatLng.Webhook.Materialize

/-! How often a job is tried. The log says how many attempts have failed; as long as there is
one attempt at a time and its outcome gets into the log, that number bounds the attempts begun,
and a job that has used up its attempts is left alone. -/

namespace LatLng.Webhook

open LatLng.Core Storage LatLng.Lib List

variable {lib : Lib}

/-! ### The row that the log gives a job -/

variable (lib) in
def logRow (db : Db) (jobId : String) : Option JobRow :=
  (logEffect lib jobId (tailOf db.storage.entries 0)).act none

variable (lib) in
def Numbered (n : Nat) (jobId : String) : Prop := ∃ m ≤ n, jobId = opaqueWebhookJobId lib m

theorem Numbered.mono {m n : Nat} {jobId : String} (h : Numbered lib m jobId) (hle : m ≤ n) :
    Numbered lib n jobId := by
  obtain ⟨k, hk, rfl⟩ := h
  exact ⟨k, hk.trans hle, rfl⟩

theorem logRow_extends {P : StorageEntry → Prop} {db db' : Db} (h : db.Extends P db') :
    ∃ added, (∀ entry ∈ added, db.nextSequence < entry.sequence ∧
        entry.sequence ≤ db'.nextSequence ∧ P entry) ∧
      db'.storage.entries = db.storage.entries ++ added ∧
      ∀ jobId, logRow lib db' jobId = (logEffect lib jobId added).act (logRow lib db jobId) := by
  obtain ⟨added, hlog, -, hadded⟩ := h.log
  refine ⟨added, hadded, hlog, fun jobId => ?_⟩
  have hpos : ∀ entry ∈ added, 0 < entry.sequence :=
    fun entry he => (Nat.zero_le _).trans_lt (hadded entry he).1
  rw [logRow, hlog, tailOf_append, tailOf_eq_self hpos, act_logEffect_append, logRow]

variable {entries : List StorageEntry}

theorem logEffect_issued (hcodec : KeepsJobs lib)
    (hissued : ∀ entry ∈ entries, Issued lib entry) (jobId : String) (row : Option JobRow) :
    (logEffect lib jobId entries).act row = row ∨
      ∃ entry ∈ entries, jobId = opaqueWebhookJobId lib entry.sequence ∧
        ∃ r : WebhookEnqueueRecord, r.Untried ∧
          (logEffect lib jobId entries).act row = some (.enqueued entry.sequence r) := by
  induction entries generalizing row with
  | nil => exact .inl rfl
  | cons entry entries ih =>
    rw [act_logEffect_cons]
    rcases ih (fun e he => hissued e (mem_cons_of_mem _ he))
      ((entryEffect lib jobId entry).act row) with hrest | ⟨e, he, hid, r, hr, hrest⟩
    · rw [hrest]
      obtain ⟨record, hjson, hrecord⟩ := hissued entry mem_cons_self
      rw [entryEffect]
      split
      · exact .inl rfl
      next record' hdecode =>
        rcases hrecord with ⟨c, rfl, -⟩ | ⟨r, rfl, hid, huntried⟩
        · obtain ⟨c', rfl⟩ := hcodec.command hjson hdecode
          exact .inl rfl
        · obtain ⟨r', rfl, hjob, hused, hmax⟩ := hcodec.enqueue hjson hdecode
          have huntried' : r'.Untried := by
            refine ⟨hused.trans huntried.unused, ?_, ?_⟩
            · rw [hmax]
              exact huntried.allowed
            · rw [hmax]
              exact huntried.bounded
          by_cases hsame : r'.jobId = jobId
          · refine .inr ⟨entry, mem_cons_self, hsame.symm.trans (hjob.trans hid), r',
              huntried', ?_⟩
            rw [recordEffect, if_pos hsame]
            rfl
          · refine .inl ?_
            rw [recordEffect, if_neg hsame]
            rfl
    · exact .inr ⟨e, mem_cons_of_mem _ he, hid, r, hr, hrest⟩

theorem logRow_grows (hcodec : KeepsJobs lib)
    (hids : Function.Injective (lib.opaqueWebhookId "job")) {db db' : Db}
    (h : db.Grows lib db') (jobId : String) :
    logRow lib db' jobId = logRow lib db jobId ∨
      ¬ Numbered lib db.nextSequence jobId ∧ Numbered lib db'.nextSequence jobId ∧
        ∃ n, ∃ r : WebhookEnqueueRecord, r.Untried ∧ logRow lib db' jobId = some (.enqueued n r) := by
  obtain ⟨added, hadded, -, hrow⟩ := @logRow_extends lib _ _ _ h
  rw [hrow]
  rcases logEffect_issued hcodec (fun entry he => (hadded entry he).2.2) jobId
    (logRow lib db jobId) with hsame | ⟨entry, he, hid, r, hr, hnew⟩
  · exact .inl hsame
  · obtain ⟨hlo, hhi, -⟩ := hadded entry he
    refine .inr ⟨?_, ⟨entry.sequence, hhi, hid⟩, entry.sequence, r, hr, hnew⟩
    rintro ⟨m, hm, hid'⟩
    have := opaqueWebhookJobId_injective hids (hid.symm.trans hid')
    omega

/-! ### What the outcome of an attempt does -/

/-- The job is gone, or one more attempt counts as used and, if it was the last one, the job is a
dead letter. -/
theorem outcomeRecord_effect {config : OutboxConfig} {nowMs : Nat} {job : QueueJob}
    {outcome : DeliveryOutcome} {record : LogRecord}
    (h : outcomeRecord config nowMs job outcome = some record)
    (hleft : job.attemptsUsed < job.maxAttempts) (hbound : job.maxAttempts < 2 ^ 32)
    (sequence : Nat) :
    (∀ jobId, jobId ≠ job.jobId → recordEffect jobId sequence record = .keep) ∧
      (recordEffect job.jobId sequence record = .put none ∨
        ∃ p : Patch, recordEffect job.jobId sequence record = .patch p ∧
          p.attemptsUsed = job.attemptsUsed + 1 ∧
          (p.state = .deadLetter ∨ p.state = .pending ∧ p.attemptsUsed < job.maxAttempts)) := by
  have hused : min (job.attemptsUsed + 1) (2 ^ 32 - 1) = job.attemptsUsed + 1 := by omega
  unfold outcomeRecord at h
  cases outcome with
  | skipped => cases h
  | delivered =>
    cases h
    exact ⟨fun jobId hne => if_neg (Ne.symm hne), .inl (if_pos rfl)⟩
  | failed error =>
    dsimp only at h
    rw [hused] at h
    split at h
    · cases h
      exact ⟨fun jobId hne => if_neg (Ne.symm hne), .inr ⟨_, if_pos rfl, rfl, .inl rfl⟩⟩
    next hmore =>
      cases h
      exact ⟨fun jobId hne => if_neg (Ne.symm hne),
        .inr ⟨_, if_pos rfl, rfl, .inr ⟨rfl, Nat.not_le.1 hmore⟩⟩⟩

/-! ### Reading a tail that can be decoded -/

theorem Queue.replay_readable
    (h : ∀ entry ∈ entries, ∃ record, decodeLogRecord lib entry.command = .ok record) (q : Queue)
    (last : Nat) : ∃ n, (q.replay lib entries last).1 = .ok n := by
  induction entries generalizing q last with
  | nil => exact ⟨last, rfl⟩
  | cons entry entries ih =>
    obtain ⟨record, hdecode⟩ := h entry mem_cons_self
    rw [replay, hdecode]
    exact ih (fun e he => h e (mem_cons_of_mem _ he)) _ _

theorem Outbox.applyLogTail_readable {s : Outbox}
    (h : ∀ entry ∈ tailOf s.db.storage.entries s.lastAppliedSequence,
      ∃ record, decodeLogRecord lib entry.command = .ok record) :
    (∃ storage, s.db.storage.SameLog storage ∧
        (s.applyLogTail lib).2 = { s with db := { s.db with storage } }) ∨
      (s.applyLogTail lib).1 = .ok () := by
  rcases hread : s.db.storage.read (.ok : List StorageEntry → Except StorageError _) with
    ⟨r, storage⟩
  obtain ⟨hsame, ⟨e, rfl⟩ | rfl⟩ := LogStore.read_cases hread
  · refine .inl ⟨storage, hsame, ?_⟩
    rw [applyLogTail, hread]
  · refine .inr ?_
    obtain ⟨n, hn⟩ := Queue.replay_readable h s.queue s.lastAppliedSequence
    rw [applyLogTail, hread]
    dsimp only
    rcases hreplay : s.queue.replay lib (tailOf s.db.storage.entries s.lastAppliedSequence)
      s.lastAppliedSequence with ⟨result, queue⟩
    rw [hreplay] at hn
    subst hn
    rfl

/-! ### The books -/

namespace Outbox

variable (lib) in
/-- A job is leased only while no attempt at it is open, no task is lost, every outcome gets into
the log, and the entries of the tail can be decoded. -/
def Orderly (action : OutboxAction) (s : Outbox) : Prop :=
  match action with
  | .applyLogTail =>
    ∀ entry ∈ tailOf s.db.storage.entries s.lastAppliedSequence,
      ∃ record, decodeLogRecord lib entry.command = .ok record
  | .leaseDue limit config =>
    ∀ new ∈ s.leased limit config, ∀ a ∈ s.outstanding, a.job.jobId ≠ new.job.jobId
  | .lose _ => False
  | .finish k config ctx => s.Recorded lib k config ctx
  | _ => True

variable (lib) in
structure Accounted (s : Outbox) : Prop where
  increasing : Increasing s.db.storage.entries
  stores : s.db.storage.storesCommandLog = true
  current : Current lib s.db s.lastAppliedSequence fun jobId => s.queue[jobId]?
  numbered : ∀ jobId row, logRow lib s.db jobId = some row → Numbered lib s.db.nextSequence jobId
  begunNumbered : ∀ jobId ∈ s.begun, Numbered lib s.db.nextSequence jobId
  /-- There is one attempt at a job at a time. -/
  alone : (s.outstanding.map (·.job.jobId)).Nodup
  live : ∀ a ∈ s.outstanding, a.epoch = s.epoch ∧ a.progress ≠ .ended .skipped ∧ a.progress ≠ .lost
  rows : ∀ jobId row, s.queue[jobId]? = some row → logRow lib s.db jobId = some row.unleased
  /-- A job that is not in the queue yet has not been tried. -/
  unread : ∀ jobId row, logRow lib s.db jobId = some row → s.queue[jobId]? = none →
    jobId ∉ s.begun
  left : ∀ jobId row, logRow lib s.db jobId = some row → row.state ≠ .deadLetter →
    row.attemptsUsed < row.maxAttempts ∧ row.maxAttempts < 2 ^ 32
  held : ∀ a ∈ s.outstanding, ∃ row, s.queue[a.job.jobId]? = some row ∧ row.state ≠ .deadLetter ∧
    a.job.attemptsUsed = row.attemptsUsed ∧ a.job.maxAttempts = row.maxAttempts
  /-- Every delivery but the one that is under way has been counted. -/
  spent : ∀ jobId row, s.queue[jobId]? = some row →
    s.begun.count jobId ≤ row.attemptsUsed + 1 ∧
      ((∀ a ∈ s.outstanding, a.job.jobId = jobId → a.progress = .spawned) →
        s.begun.count jobId ≤ row.attemptsUsed)

end Outbox

theorem JobRow.unleased_dead (row : JobRow) :
    row.unleased.state = .deadLetter ↔ row.state = .deadLetter := by
  unfold unleased
  split
  next h => simp [h]
  · rfl

theorem ne_of_mem_eraseIdx {α β : Type} {f : α → β} {as : List α} (hnodup : (as.map f).Nodup)
    {k : Nat} {a b : α} (hk : as[k]? = some a) (hb : b ∈ as.eraseIdx k) : f b ≠ f a := by
  obtain ⟨i, hne, hi⟩ := List.mem_eraseIdx_iff_getElem?.1 hb
  obtain ⟨hilt, rfl⟩ := List.getElem?_eq_some_iff.1 hi
  obtain ⟨hklt, rfl⟩ := List.getElem?_eq_some_iff.1 hk
  intro heq
  have hinj := @List.Nodup.getElem_inj_iff _ _ hnodup i (by simpa using hilt) k (by simpa using hklt)
  exact hne (hinj.1 (by simpa using heq))

namespace Outbox.Accounted

variable {s s' : Outbox} (h : s.Accounted lib)

include h

theorem requeue {queue : Queue} {cursor : Nat} {storage : LogStore}
    (hsame : s.db.storage.SameLog storage)
    (hcurrent : Current lib { s.db with storage } cursor fun jobId => queue[jobId]?)
    (hqueue : ∀ jobId : String,
      (queue[jobId]?).map JobRow.unleased = (s.queue[jobId]?).map JobRow.unleased ∨
        s.queue[jobId]? = none ∧ (queue[jobId]?).map JobRow.unleased = logRow lib s.db jobId) :
    Accounted lib { s with db := { s.db with storage }, queue, lastAppliedSequence := cursor } := by
  have hlog : ∀ jobId, logRow lib { s.db with storage } jobId = logRow lib s.db jobId := by
    intro jobId
    rw [logRow, hsame.entries]
    rfl
  -- a row that was there before differs in its lease only
  have hkept : ∀ (jobId : String) (row : JobRow), s.queue[jobId]? = some row →
      ∃ row', queue[jobId]? = some row' ∧ row'.unleased = row.unleased := by
    intro jobId row hrow
    rcases hqueue jobId with heq | ⟨hnone, -⟩
    · rw [hrow] at heq
      exact Option.map_eq_some_iff.1 heq
    · rw [hrow] at hnone
      cases hnone
  have hcases : ∀ (jobId : String) (row' : JobRow), queue[jobId]? = some row' →
      (∃ row, s.queue[jobId]? = some row ∧ row.unleased = row'.unleased) ∨
        s.queue[jobId]? = none ∧ logRow lib s.db jobId = some row'.unleased := by
    intro jobId row' hrow'
    rcases hqueue jobId with heq | ⟨hnone, heq⟩
    · rw [hrow'] at heq
      exact .inl (Option.map_eq_some_iff.1 heq.symm)
    · rw [hrow'] at heq
      exact .inr ⟨hnone, heq.symm⟩
  refine
    { increasing := ?_, stores := hsame.stores.trans h.stores, current := hcurrent
      numbered := ?_, begunNumbered := h.begunNumbered, alone := h.alone, live := h.live
      rows := ?_, unread := ?_, left := ?_, held := ?_, spent := ?_ }
  · rw [hsame.entries]
    exact h.increasing
  · intro jobId row hrow
    rw [hlog] at hrow
    exact h.numbered jobId row hrow
  · intro jobId row' hrow'
    rw [hlog]
    rcases hcases jobId row' hrow' with ⟨row, hrow, heq⟩ | ⟨-, hfresh⟩
    · rw [h.rows jobId row hrow, heq]
    · exact hfresh
  · intro jobId row hrow hnone
    rw [hlog] at hrow
    cases hold : s.queue[jobId]? with
    | none => exact h.unread jobId row hrow hold
    | some old =>
      obtain ⟨row', hrow', -⟩ := hkept jobId old hold
      exact absurd (hrow'.symm.trans hnone) (by simp)
  · intro jobId row hrow
    rw [hlog] at hrow
    exact h.left jobId row hrow
  · intro a ha
    obtain ⟨row, hrow, hopen, hused, hmax⟩ := h.held a ha
    obtain ⟨row', hrow', heq⟩ := hkept _ row hrow
    have hopen' : row'.state ≠ .deadLetter := by
      intro hdead
      have hdead' := row'.unleased_dead.2 hdead
      rw [heq] at hdead'
      exact hopen (row.unleased_dead.1 hdead')
    exact ⟨row', hrow', hopen',
      hused.trans (congrArg JobRow.attemptsUsed heq).symm,
      hmax.trans (congrArg JobRow.maxAttempts heq).symm⟩
  · intro jobId row' hrow'
    rcases hcases jobId row' hrow' with ⟨row, hrow, heq⟩ | ⟨hnone, hfresh⟩
    · have hused : row'.unleased.attemptsUsed = row.unleased.attemptsUsed := by rw [heq]
      rw [show row'.attemptsUsed = row.attemptsUsed from hused]
      exact h.spent jobId row hrow
    · have hzero : s.begun.count jobId = 0 :=
        count_eq_zero_of_not_mem (h.unread jobId _ hfresh hnone)
      rw [hzero]
      exact ⟨Nat.zero_le _, fun _ => Nat.zero_le _⟩

theorem write (hcodec : KeepsJobs lib) (hids : Function.Injective (lib.opaqueWebhookId "job"))
    {db : Db} (hgrows : s.db.Grows lib db) : Accounted lib { s with db } := by
  have hlog := logRow_grows hcodec hids hgrows
  have hsame : ∀ jobId, Numbered lib s.db.nextSequence jobId →
      logRow lib db jobId = logRow lib s.db jobId :=
    fun jobId hknown => (hlog jobId).resolve_right fun hnew => hnew.1 hknown
  obtain ⟨-, -, hinc, -⟩ := hgrows.log
  refine
    { increasing := hinc h.increasing, stores := hgrows.stores.trans h.stores
      current := h.current.extend h.increasing hgrows
      numbered := ?_, begunNumbered := fun jobId hj => (h.begunNumbered jobId hj).mono hgrows.sequence
      alone := h.alone, live := h.live, rows := ?_, unread := ?_, left := ?_, held := h.held
      spent := h.spent }
  · intro jobId row hrow
    rcases hlog jobId with heq | ⟨-, hnew, -⟩
    · rw [heq] at hrow
      exact (h.numbered jobId row hrow).mono hgrows.sequence
    · exact hnew
  · intro jobId row hrow
    have hold := h.rows jobId row hrow
    rw [hsame jobId (h.numbered jobId _ hold), hold]
  · intro jobId row hrow hnone
    rcases hlog jobId with heq | ⟨hnew, -⟩
    · rw [heq] at hrow
      exact h.unread jobId row hrow hnone
    · exact fun hbegun => hnew (h.begunNumbered jobId hbegun)
  · intro jobId row hrow hopen
    rcases hlog jobId with heq | ⟨-, -, n, r, huntried, heq⟩
    · rw [heq] at hrow
      exact h.left jobId row hrow hopen
    · rw [heq] at hrow
      cases hrow
      refine ⟨?_, huntried.bounded⟩
      change r.attemptsUsed < r.maxAttempts
      rw [huntried.unused]
      exact huntried.allowed

theorem lease {new : List (QueueJob × Nat)} (hnodup : (new.map (·.1.jobId)).Nodup)
    (hfree : ∀ p ∈ new, ∀ a ∈ s.outstanding, a.job.jobId ≠ p.1.jobId)
    (hrows : ∀ p ∈ new, ∃ row, s.queue[p.1.jobId]? = some row ∧ row.state ≠ .deadLetter ∧
      p.1.attemptsUsed = row.attemptsUsed ∧ p.1.maxAttempts = row.maxAttempts) :
    Accounted lib { s with hand := s.hand ++ new } := by
  have hout : { s with hand := s.hand ++ new }.outstanding = s.outstanding ++ new.map fun p =>
      { job := p.1, leaseExpiresAtMs := p.2, epoch := s.epoch, progress := .spawned } := by
    rw [outstanding, outstanding, map_append, append_assoc]
  refine { h with alone := ?_, live := ?_, held := ?_, spent := ?_ }
  · rw [hout, map_append, map_map]
    refine nodup_append.2 ⟨h.alone, hnodup, ?_⟩
    intro jobId hold jobId' hnew heq
    obtain ⟨a, ha, rfl⟩ := mem_map.1 hold
    obtain ⟨p, hp, rfl⟩ := mem_map.1 hnew
    exact hfree p hp a ha heq
  · intro a ha
    rw [hout] at ha
    rcases mem_append.1 ha with ha | ha
    · exact h.live a ha
    · obtain ⟨p, -, rfl⟩ := mem_map.1 ha
      exact ⟨rfl, by simp, by simp⟩
  · intro a ha
    rw [hout] at ha
    rcases mem_append.1 ha with ha | ha
    · exact h.held a ha
    · obtain ⟨p, hp, rfl⟩ := mem_map.1 ha
      exact hrows p hp
  · intro jobId row hrow
    refine ⟨(h.spent jobId row hrow).1, fun hspawned => (h.spent jobId row hrow).2 fun a ha hj => ?_⟩
    refine hspawned a ?_ hj
    rw [hout]
    exact mem_append_left _ ha

variable {a : Attempt}

theorem eq_of_jobId {b : Attempt} (ha : a ∈ s.outstanding)
    (hb : b ∈ s.outstanding) (hjob : a.job.jobId = b.job.jobId) : a = b :=
  inj_on_of_nodup_map h.alone ha hb hjob

theorem advance {k : Nat} (hk : s.inFlight[k]? = some a) {progress : Progress}
    (hp : progress ≠ .spawned ∧ progress ≠ .ended .skipped ∧ progress ≠ .lost) {begun : List String}
    (hbegun : begun = s.begun ∨ a.progress = .spawned ∧ begun = a.job.jobId :: s.begun) :
    Accounted lib { s.setProgress k a progress with begun } := by
  have hout : { s.setProgress k a progress with begun }.outstanding =
      s.outstanding.set k { a with progress } := outstanding_setProgress hk progress
  have hk' := getElem?_outstanding hk
  have ha := mem_of_getElem? hk'
  obtain ⟨row, hrow, hopen, hused, hmax⟩ := h.held a ha
  have hcount : ∀ jobId, jobId ≠ a.job.jobId → begun.count jobId = s.begun.count jobId := by
    intro jobId hne
    rcases hbegun with rfl | ⟨-, rfl⟩
    · rfl
    · exact count_cons_of_ne (Ne.symm hne)
  refine { h with begunNumbered := ?_, alone := ?_, live := ?_, unread := ?_, held := ?_, spent := ?_ }
  · intro jobId hmem
    rcases hbegun with rfl | ⟨-, rfl⟩
    · exact h.begunNumbered jobId hmem
    · rcases mem_cons.1 hmem with rfl | hmem
      · exact h.numbered _ _ (h.rows _ row hrow)
      · exact h.begunNumbered jobId hmem
  · rw [hout, map_set_of_eq (x := { a with progress }) hk' rfl]
    exact h.alone
  · intro b hb
    rw [hout] at hb
    rcases mem_or_eq_of_mem_set hb with hb | rfl
    · exact h.live b hb
    · exact ⟨(h.live a ha).1, hp.2⟩
  · intro jobId logged hlogged hnone hmem
    have hne : jobId ≠ a.job.jobId := by
      rintro rfl
      exact absurd (hrow.symm.trans hnone) (by simp)
    refine h.unread jobId logged hlogged hnone (count_pos_iff.1 ?_)
    rw [← hcount jobId hne]
    exact count_pos_iff.2 hmem
  · intro b hb
    rw [hout] at hb
    rcases mem_or_eq_of_mem_set hb with hb | rfl
    · exact h.held b hb
    · exact ⟨row, hrow, hopen, hused, hmax⟩
  · intro jobId row' hrow'
    rw [hout]
    by_cases hjob : jobId = a.job.jobId
    · subst hjob
      have hstarted : ¬ ∀ b ∈ s.outstanding.set k { a with progress },
          b.job.jobId = a.job.jobId → b.progress = .spawned := by
        intro hall
        exact hp.1 (hall { a with progress }
          (List.mem_set (List.getElem?_eq_some_iff.1 hk').1 _) rfl)
      refine ⟨?_, fun hall => absurd hall hstarted⟩
      obtain ⟨hle, hall⟩ := h.spent _ row' hrow'
      rcases hbegun with rfl | ⟨hspawned, rfl⟩
      · exact hle
      · have hbefore := hall fun b hb hb' => by
          rw [h.eq_of_jobId hb ha hb']
          exact hspawned
        rw [count_cons_self]
        exact Nat.succ_le_succ hbefore
    · rw [hcount jobId hjob]
      refine ⟨(h.spent jobId row' hrow').1, fun hall => (h.spent jobId row' hrow').2 fun b hb hb' => ?_⟩
      refine hall b (mem_set_of_ne hk' hb ?_) hb'
      rintro rfl
      exact hjob hb'.symm

theorem finish {k : Nat}
    (hk : s.inFlight[k]? = some a) {config : OutboxConfig} {outcome : DeliveryOutcome}
    {record : LogRecord} (hrecord : outcomeRecord config s.nowMs a.job outcome = some record)
    {entry : StorageEntry} {db : Db} (hlogged : s.db.Logged [entry] db)
    (hdecode : decodeLogRecord lib entry.command = .ok record) :
    Accounted lib { s with
      inFlight := s.inFlight.eraseIdx k, db
      queue := s.queue.applyLogRecord entry.sequence record } := by
  have hext : s.db.Extends (fun _ => True) db := .of_logged hlogged fun _ _ => trivial
  have hk' := getElem?_outstanding hk
  have ha := mem_of_getElem? hk'
  obtain ⟨row, hrow, hopen, hused, hmax⟩ := h.held a ha
  have hlogrow := h.rows _ row hrow
  obtain ⟨hleft, hbound⟩ := h.left _ _ hlogrow ((not_congr row.unleased_dead).2 hopen)
  obtain ⟨hothers, hown⟩ := outcomeRecord_effect hrecord (by rw [hused, hmax]; exact hleft)
    (by rw [hmax]; exact hbound) entry.sequence
  have hqueue := s.queue.getElem?_applyLogRecord entry.sequence record
  have hlog : ∀ jobId, logRow lib db jobId =
      (recordEffect jobId entry.sequence record).act (logRow lib s.db jobId) := by
    intro jobId
    obtain ⟨added, -, hadded, hrows⟩ := @logRow_extends lib _ _ _ hext
    cases append_cancel_left (hlogged.log.symm.trans hadded)
    rw [hrows, act_logEffect_cons, entryEffect, hdecode]
    rfl
  have hqueue_ne : ∀ jobId, jobId ≠ a.job.jobId →
      (s.queue.applyLogRecord entry.sequence record)[jobId]? = s.queue[jobId]? := by
    intro jobId hne
    rw [hqueue, hothers jobId hne]
    rfl
  have hlog_ne : ∀ jobId, jobId ≠ a.job.jobId → logRow lib db jobId = logRow lib s.db jobId := by
    intro jobId hne
    rw [hlog, hothers jobId hne]
    rfl
  have hfinished : ((s.queue.applyLogRecord entry.sequence record)[a.job.jobId]? = none ∧
        logRow lib db a.job.jobId = none) ∨
      ∃ p : Patch, (s.queue.applyLogRecord entry.sequence record)[a.job.jobId]? = some (p.apply row) ∧
        logRow lib db a.job.jobId = some (p.apply row.unleased) ∧
        p.attemptsUsed = row.attemptsUsed + 1 ∧
        (p.state = .deadLetter ∨ p.state = .pending ∧ p.attemptsUsed < row.maxAttempts) := by
    rw [hqueue, hlog, hrow, hlogrow, ← hused, ← hmax]
    rcases hown with heq | ⟨p, heq, hcount, hstate⟩
    · rw [heq]
      exact .inl ⟨rfl, rfl⟩
    · rw [heq]
      exact .inr ⟨p, rfl, rfl, hcount, hstate⟩
  have hout : { s with inFlight := s.inFlight.eraseIdx k, db
                       queue := s.queue.applyLogRecord entry.sequence record }.outstanding =
      s.outstanding.eraseIdx k := outstanding_eraseIdx hk
  have hgone : ∀ b ∈ s.outstanding.eraseIdx k, b.job.jobId ≠ a.job.jobId :=
    fun b hb => ne_of_mem_eraseIdx h.alone hk' hb
  obtain ⟨-, -, hinc, -⟩ := hext.log
  refine
    { increasing := hinc h.increasing, stores := hext.stores.trans h.stores
      current := h.current.outcome h.increasing hlogged hdecode hqueue, numbered := ?_
      begunNumbered := fun jobId hj => (h.begunNumbered jobId hj).mono hext.sequence
      alone := ?_, live := ?_, rows := ?_, unread := ?_, left := ?_, held := ?_, spent := ?_ }
  · intro jobId row' hrow'
    by_cases hjob : jobId = a.job.jobId
    · rw [hjob]
      exact (h.numbered _ _ hlogrow).mono hext.sequence
    · rw [hlog_ne jobId hjob] at hrow'
      exact (h.numbered jobId row' hrow').mono hext.sequence
  · rw [hout]
    exact h.alone.sublist ((eraseIdx_sublist _ _).map _)
  · intro b hb
    rw [hout] at hb
    exact h.live b (mem_of_mem_eraseIdx hb)
  · intro jobId row' hrow'
    by_cases hjob : jobId = a.job.jobId
    · subst hjob
      have hlease := recordEffect_unleased a.job.jobId entry.sequence record s.queue[a.job.jobId]?
      rw [← hqueue, show (s.queue.applyLogRecord entry.sequence record)[a.job.jobId]? = some row'
        from hrow', hrow, Option.map_some, Option.map_some, ← hlogrow, ← hlog] at hlease
      exact hlease.symm
    · rw [hlog_ne jobId hjob]
      exact h.rows jobId row' ((hqueue_ne jobId hjob).symm.trans hrow')
  · intro jobId row' hrow' hnone
    by_cases hjob : jobId = a.job.jobId
    · subst hjob
      rcases hfinished with ⟨-, hgone⟩ | ⟨p, hsome, -⟩
      · exact absurd (hgone.symm.trans hrow') (by simp)
      · exact absurd (hnone.symm.trans hsome) (by simp)
    · rw [hlog_ne jobId hjob] at hrow'
      exact h.unread jobId row' hrow' ((hqueue_ne jobId hjob).symm.trans hnone)
  · intro jobId row' hrow' hopen'
    by_cases hjob : jobId = a.job.jobId
    · subst hjob
      rcases hfinished with ⟨-, hgone⟩ | ⟨p, -, hsome, -, hdead | ⟨-, hlt⟩⟩
      · exact absurd (hgone.symm.trans hrow') (by simp)
      · cases hsome.symm.trans hrow'
        exact absurd hdead hopen'
      · cases hsome.symm.trans hrow'
        exact ⟨hlt, hbound⟩
    · rw [hlog_ne jobId hjob] at hrow'
      exact h.left jobId row' hrow' hopen'
  · intro b hb
    rw [hout] at hb
    obtain ⟨row', hrow', hrest⟩ := h.held b (mem_of_mem_eraseIdx hb)
    exact ⟨row', (hqueue_ne _ (hgone b hb)).trans hrow', hrest⟩
  · intro jobId row' hrow'
    by_cases hjob : jobId = a.job.jobId
    · subst hjob
      rcases hfinished with ⟨hgone, -⟩ | ⟨p, hsome, -, hcount, -⟩
      · exact absurd (hgone.symm.trans hrow') (by simp)
      · cases hsome.symm.trans hrow'
        have hle : s.begun.count a.job.jobId ≤ p.attemptsUsed := by
          rw [hcount]
          exact (h.spent _ row hrow).1
        exact ⟨hle.trans (Nat.le_succ _), fun _ => hle⟩
    · have hold := h.spent jobId row' ((hqueue_ne jobId hjob).symm.trans hrow')
      refine ⟨hold.1, fun hall => hold.2 fun b hb hb' => ?_⟩
      refine hall b ?_ hb'
      rw [hout]
      refine mem_eraseIdx_of_ne hk' hb ?_
      rintro rfl
      exact hjob hb'.symm

end Outbox.Accounted

namespace Outbox

variable {s s' : Outbox} {action : OutboxAction}

theorem leaseDue_eq (s : Outbox) (limit : Nat) (config : OutboxConfig) :
    s.leaseDue limit config.webhookLeaseMs =
      { { s with queue := (s.queue.leaseDue limit config.webhookLeaseMs s.nowMs).2 } with
        hand := s.hand ++ (s.queue.leaseDue limit config.webhookLeaseMs s.nowMs).1.map fun job =>
          (job, Queue.leaseEnd s.nowMs config.webhookLeaseMs) } := rfl

theorem Accounted.step (hcodec : KeepsJobs lib)
    (hids : Function.Injective (lib.opaqueWebhookId "job")) (h : s.Accounted lib)
    (hcond : Orderly lib action s) (hm : s.Moves lib action s') : s'.Accounted lib := by
  have hcurrent := h.current.moves hcodec h.increasing h.stores hm
  have hself : s.db.storage.SameLog s.db.storage := LogStore.SameLog.refl _
  cases hm with
  | tick ms => exact { h with current := h.current }
  | write ctx hw => exact h.write hcodec hids (Db.Grows.call hw ctx)
  | applyLogTail hgate =>
    rcases applyLogTail_readable hcond with ⟨storage, hsame, heq⟩ | hok
    · rw [heq] at hcurrent ⊢
      exact h.requeue hsame hcurrent fun _ => .inl rfl
    · have hnil := tailOf_of_applyLogTail h.increasing hok
      obtain ⟨storage, queue, hsame, ⟨e, done, rest, heq, -⟩ | ⟨heq, -⟩⟩ := @applyLogTail_cases lib s
      · rw [heq] at hok
        cases hok
      · rw [heq] at hcurrent hnil ⊢
        refine h.requeue hsame hcurrent fun jobId => ?_
        -- the whole log is in the queue now
        have hrow := hcurrent.rows jobId
        rw [hnil] at hrow
        have hlog : (queue[jobId]?).map JobRow.unleased = logRow lib s.db jobId := by
          rw [logRow, ← hsame.entries]
          exact hrow
        cases hold : s.queue[jobId]? with
        | none => exact .inr ⟨rfl, hlog⟩
        | some row => exact .inl (hlog.trans (h.rows jobId row hold))
  | releaseExpiredLeases hgate =>
    exact h.requeue hself hcurrent fun jobId => .inl (s.queue.unleased_releaseExpiredLeases _ _)
  | leaseDue limit config hgate =>
    rw [leaseDue_eq] at hcurrent ⊢
    have hrequeued := h.requeue hself hcurrent fun jobId => .inl (s.queue.unleased_leaseDue _ _ _ _)
    refine hrequeued.lease ?_ (fun p hp a ha => ?_) (fun p hp => ?_)
    · rw [map_map]
      exact Queue.nodup_leaseDue _ _ _ _
    · obtain ⟨job, hjob, rfl⟩ := mem_map.1 hp
      exact hcond _ (mem_map_of_mem hjob) a ha
    · obtain ⟨job, hjob, rfl⟩ := mem_map.1 hp
      obtain ⟨row, hrow, hdue, heq⟩ := Queue.mem_leaseDue hjob
      refine ⟨row.lease (Queue.leaseEnd s.nowMs config.webhookLeaseMs), ?_, by simp [JobRow.lease],
        congrArg QueueJob.attemptsUsed heq, congrArg QueueJob.maxAttempts heq⟩
      rw [Queue.getElem?_leaseDue, if_pos (Queue.leasedIds_of_mem hjob), hrow]
      rfl
  | spawn =>
    refine { h with alone := ?_, live := ?_, held := ?_, spent := ?_ } <;> rw [s.outstanding_spawn]
    exacts [h.alone, h.live, h.held, h.spent]
  | @begin k attempt hk hprogress hgate =>
    have hepoch := (h.live attempt (mem_of_getElem? (getElem?_outstanding hk))).1
    rw [begin, if_neg (not_not.2 hepoch)]
    exact h.advance hk ⟨by simp, by simp, by simp⟩ (.inr ⟨hprogress, rfl⟩)
  | deliver outcome hk hprogress hattempted =>
    refine h.advance hk ⟨by simp, ?_, by simp⟩ (.inl rfl)
    intro heq
    cases heq
    exact hattempted rfl
  | lose hk => exact hcond.elim
  | @finish k attempt outcome config ctx hk hprogress hgate =>
    obtain ⟨hepoch, hattempted, -⟩ := h.live attempt (mem_of_getElem? (getElem?_outstanding hk))
    have hmade : outcome ≠ .skipped := by
      rintro rfl
      exact hattempted hprogress
    obtain ⟨record, hrecord⟩ := exists_outcomeRecord config s.nowMs attempt.job hmade
    obtain ⟨sequences, happend⟩ := hcond attempt outcome record hk hprogress hrecord
    obtain ⟨db, entry, hlogged, hdecode, heq⟩ := finalizeWebhookAttempt_recorded
      (s := { s with inFlight := s.inFlight.eraseIdx k }) hepoch hrecord happend hcodec h.stores
    rw [heq]
    exact h.finish hk hrecord hlogged hdecode
  | forget config ctx hk hprogress =>
    exact absurd hprogress (h.live _ (mem_of_getElem? (getElem?_outstanding hk))).2.2

theorem Accounted.unleased_row (hcodec : KeepsJobs lib) (h : s.Accounted lib)
    (hcond : Orderly lib action s) (hm : s.Moves lib action s') {jobId : String} {row : JobRow}
    (hrow : s.queue[jobId]? = some row) (hfree : ∀ a ∈ s.outstanding, a.job.jobId ≠ jobId) :
    (s'.queue[jobId]?).map JobRow.unleased = some row.unleased := by
  have hcurrent := h.current.moves hcodec h.increasing h.stores hm
  have hsame : (s.queue[jobId]?).map JobRow.unleased = some row.unleased := by
    rw [hrow]
    rfl
  cases hm with
  | applyLogTail hgate =>
    rcases applyLogTail_readable hcond with ⟨storage, -, heq⟩ | hok
    · rw [heq]
      exact hsame
    · have hlog := hcurrent.rows jobId
      rw [tailOf_of_applyLogTail h.increasing hok] at hlog
      rw [applyLogTail_entries] at hlog
      exact hlog.trans (h.rows jobId row hrow)
  | releaseExpiredLeases hgate => exact (s.queue.unleased_releaseExpiredLeases _ _).trans hsame
  | leaseDue limit config hgate => exact (s.queue.unleased_leaseDue _ _ _ _).trans hsame
  | @begin k attempt hk =>
    obtain ⟨progress, begun, heq⟩ := s.begin_frame k attempt
    rw [heq]
    exact hsame
  | @finish k attempt outcome config ctx hk hprogress hgate =>
    rcases @finalizeWebhookAttempt_queue lib _ _ _ _ _ with
      hqueue | ⟨sequence, record, hrecord, hqueue⟩
    · rw [hqueue]
      exact hsame
    · have ha := mem_of_getElem? (getElem?_outstanding hk)
      obtain ⟨held, hheld, hopen, hused, hmax⟩ := h.held attempt ha
      obtain ⟨hleft, hbound⟩ :=
        h.left _ _ (h.rows _ held hheld) ((not_congr held.unleased_dead).2 hopen)
      obtain ⟨hothers, -⟩ := outcomeRecord_effect hrecord (by rw [hused, hmax]; exact hleft)
        (by rw [hmax]; exact hbound) sequence
      rw [hqueue, Queue.getElem?_applyLogRecord, hothers jobId (Ne.symm (hfree attempt ha))]
      exact hsame
  | _ => exact hsame

theorem Accounted.dead_step (hcodec : KeepsJobs lib) (h : s.Accounted lib)
    (hcond : Orderly lib action s) (hm : s.Moves lib action s') {jobId : String}
    (hdead : ∃ row, s.queue[jobId]? = some row ∧ row.state = .deadLetter) :
    ∃ row, s'.queue[jobId]? = some row ∧ row.state = .deadLetter := by
  obtain ⟨row, hrow, hstate⟩ := hdead
  have hfree : ∀ a ∈ s.outstanding, a.job.jobId ≠ jobId := by
    rintro a ha rfl
    obtain ⟨held, hheld, hopen, -⟩ := h.held a ha
    cases hrow.symm.trans hheld
    exact hopen hstate
  obtain ⟨row', hrow', heq⟩ := Option.map_eq_some_iff.1 (h.unleased_row hcodec hcond hm hrow hfree)
  refine ⟨row', hrow', row'.unleased_dead.1 ?_⟩
  rw [heq]
  exact row.unleased_dead.2 hstate

variable (lib) in
/-- A server that starts: its jobs are named after numbers that have been given out, and have an
attempt left unless they are dead letters. -/
structure Startable (s : Outbox) : Prop where
  increasing : Increasing s.db.storage.entries
  stores : s.db.storage.storesCommandLog = true
  numbered : ∀ (jobId : String) (row : JobRow), s.queue[jobId]? = some row →
    Numbered lib s.db.nextSequence jobId
  left : ∀ (jobId : String) (row : JobRow), s.queue[jobId]? = some row → row.state ≠ .deadLetter →
    row.attemptsUsed < row.maxAttempts ∧ row.maxAttempts < 2 ^ 32

theorem Accounted.start {db : Db} {nowMs : Nat}
    (hstart : rebuildWebhookQueueFromLog lib db nowMs = .ok s) (hjobs : s.Startable lib) :
    s.Accounted lib := by
  obtain ⟨storage, queue, hsame, hrows, rfl⟩ := rebuild_cases hstart
  have hinc : Increasing db.storage.entries := by
    have := hjobs.increasing
    rwa [hsame.entries] at this
  have hlog : ∀ jobId, logRow lib { db with storage } jobId = queue[jobId]? := by
    intro jobId
    rw [logRow, hsame.entries, hrows]
  refine
    { increasing := hjobs.increasing, stores := hjobs.stores
      current := (Current.rebuilt hinc hrows).sameLog hsame.entries rfl
      numbered := fun jobId row hrow => hjobs.numbered jobId row ((hlog jobId).symm.trans hrow)
      begunNumbered := fun jobId hj => absurd hj not_mem_nil
      alone := nodup_nil, live := fun a ha => absurd ha not_mem_nil, rows := ?_
      unread := fun jobId row _ _ => not_mem_nil
      left := fun jobId row hrow => hjobs.left jobId row ((hlog jobId).symm.trans hrow)
      held := fun a ha => absurd ha not_mem_nil
      spent := fun jobId row _ => ⟨Nat.zero_le _, fun _ => Nat.zero_le _⟩ }
  intro jobId row hrow
  -- nothing in the log leases a job
  have hunleased : (queue[jobId]?).map JobRow.unleased = queue[jobId]? := by
    rw [hrows]
    exact logEffect_unleased _ _ _
  rw [hlog, ← hunleased, show queue[jobId]? = some row from hrow]
  rfl

/-- In every run of the dispatcher in which there is one attempt at a job at a time and its
outcome gets into the log, in whatever order the steps come: a dead letter stays one, and a job is
not tried more often than it may be. -/
theorem dead_letters_final_and_attempts_bounded (hcodec : KeepsJobs lib)
    (hids : Function.Injective (lib.opaqueWebhookId "job")) {db : Db} {nowMs : Nat}
    {s₀ s : Outbox} (hstart : rebuildWebhookQueueFromLog lib db nowMs = .ok s₀)
    (hjobs : s₀.Startable lib) {schedule : List OutboxAction}
    (hmeet : StepsMeet (Outbox.step lib) (Orderly lib) schedule s₀)
    (hrun : runSteps (Outbox.step lib) schedule s₀ = some s) :
    (∀ (jobId : String) (row : JobRow), s.queue[jobId]? = some row → row.state = .deadLetter →
      ∀ later s', StepsMeet (Outbox.step lib) (Orderly lib) later s →
        runSteps (Outbox.step lib) later s = some s' →
        ∃ row', s'.queue[jobId]? = some row' ∧ row'.state = .deadLetter) ∧
      ∀ k attempt s', s.inFlight[k]? = some attempt → s.step lib (.begin k) = some s' →
        s'.begun.count attempt.job.jobId ≤ attempt.job.maxAttempts := by
  have hstep : ∀ action t t', Accounted lib t → Orderly lib action t →
      t.step lib action = some t' → Accounted lib t' :=
    fun _ _ _ h hcond hstep => h.step hcodec hids hcond (moves_of_step hstep)
  have hinv := runSteps_invariant hstep (Accounted.start hstart hjobs) hmeet hrun
  constructor
  · intro jobId row hrow hdead later s' hlater hrun'
    have hdead_step : ∀ action t t', (Accounted lib t ∧
        ∃ row, t.queue[jobId]? = some row ∧ row.state = .deadLetter) → Orderly lib action t →
        t.step lib action = some t' →
        Accounted lib t' ∧ ∃ row, t'.queue[jobId]? = some row ∧ row.state = .deadLetter :=
      fun action t t' h hcond hmove => ⟨hstep action t t' h.1 hcond hmove,
        h.1.dead_step hcodec hcond (moves_of_step hmove) h.2⟩
    exact (runSteps_invariant hdead_step ⟨hinv, row, hrow, hdead⟩ hlater hrun').2
  · intro k attempt s' hk hbegin
    have hinv' := hstep (.begin k) s s' hinv trivial hbegin
    obtain ⟨row, hrow, hopen, -, hmax⟩ :=
      hinv.held attempt (mem_of_getElem? (getElem?_outstanding hk))
    obtain ⟨hleft, -⟩ := hinv.left _ _ (hinv.rows _ row hrow) ((not_congr row.unleased_dead).2 hopen)
    have hrow' : s'.queue[attempt.job.jobId]? = some row := by
      cases moves_of_step hbegin with
      | @begin k a hk' =>
        obtain ⟨progress, begun, heq⟩ := s.begin_frame k a
        rw [heq]
        exact hrow
    rw [hmax]
    exact ((hinv'.spent _ row hrow').1).trans hleft

variable (lib) in
def isOrderly (action : OutboxAction) (s : Outbox) : Bool :=
  match action with
  | .applyLogTail =>
    (tailOf s.db.storage.entries s.lastAppliedSequence).all fun entry =>
      (decodeLogRecord lib entry.command).toOption.isSome
  | .leaseDue limit config =>
    (s.leased limit config).all fun new => s.outstanding.all fun a => a.job.jobId ≠ new.job.jobId
  | .lose _ => false
  | .finish k config ctx =>
    match s.inFlight[k]? with
    | some { job, progress := .ended outcome, .. } =>
      (outcomeRecord config s.nowMs job outcome).all fun record =>
        (s.db.appendLogRecords lib ctx [record]).1.toOption.isSome
    | _ => true
  | _ => true

theorem exists_ok_of_isSome {ε α : Type} {r : Except ε α} (h : r.toOption.isSome) :
    ∃ a, r = .ok a := by
  cases r with
  | error e => cases h
  | ok a => exact ⟨a, rfl⟩

theorem orderly_of_isOrderly (h : s.isOrderly lib action) : Orderly lib action s := by
  cases action with
  | applyLogTail =>
    intro entry he
    exact exists_ok_of_isSome (all_eq_true.1 h entry he)
  | leaseDue limit config =>
    intro new hnew a ha
    exact of_decide_eq_true (all_eq_true.1 (all_eq_true.1 h new hnew) a ha)
  | lose k => cases h
  | finish k config ctx =>
    rintro ⟨job, leaseExpiresAtMs, epoch, progress⟩ outcome record hk rfl hrecord
    rw [isOrderly, hk] at h
    dsimp only at h
    rw [hrecord] at h
    exact exists_ok_of_isSome h
  | _ => trivial

open Sample Core.Sample in
theorem jobOutbox_startable : jobOutbox.Startable jobLib := by
  have hrows : ∀ (id : String) (row : JobRow), jobOutbox.queue[id]? = some row →
      jobId = id ∧ JobRow.enqueued 1 jobRecord = row := by
    intro id row hrow
    change ((∅ : Queue).insert jobId (JobRow.enqueued 1 jobRecord))[id]? = some row at hrow
    rw [Std.ExtTreeMap.getElem?_insert] at hrow
    split at hrow
    next hid => exact ⟨Std.LawfulEqCmp.eq_of_compare hid, Option.some.inj hrow⟩
    · simp at hrow
  refine ⟨increasing_singleton _, rfl, fun id row hrow => ?_, fun id row hrow _ => ?_⟩
  · obtain ⟨rfl, -⟩ := hrows id row hrow
    exact ⟨1, le_rfl, rfl⟩
  · obtain ⟨-, rfl⟩ := hrows id row hrow
    decide

open Sample Core.Sample in
/-- Two failed attempts, one after the other, use up the two attempts of the job. -/
theorem second_failure_is_final :
    let schedule : List OutboxAction := [.leaseDue 8 quickConfig, .spawn, .begin 0,
      .deliver 0 (.failed "refused"), .finish 0 quickConfig sampleCtx, .tick 1,
      .leaseDue 8 quickConfig, .spawn, .applyLogTail, .begin 0, .deliver 0 (.failed "refused"),
      .finish 0 quickConfig sampleCtx]
    let later : List OutboxAction := [.applyLogTail, .tick 1000, .releaseExpiredLeases,
      .leaseDue 8 quickConfig, .spawn]
    ∃ s s', runSteps (Outbox.step jobLib) schedule jobOutbox = some s ∧
      runSteps (Outbox.step jobLib) later s = some s' ∧ s'.begun.count jobId = 2 ∧
      ∃ row', s'.queue[jobId]? = some row' ∧ row'.state = .deadLetter := by
  intro schedule later
  have hids : Function.Injective (jobLib.opaqueWebhookId "job") :=
    fun _ _ h => (String.append_right_inj _).1 h
  have hmeet : StepsMeet (Outbox.step jobLib) (Orderly jobLib) schedule jobOutbox :=
    stepsMeet_of_checkSteps (isOrderly jobLib) (fun _ _ => orderly_of_isOrderly) rfl
  have hfinal := fun s hrun => (dead_letters_final_and_attempts_bounded (s := s)
    (.of_lossless jobLib_lossless) hids rebuild_jobDb jobOutbox_startable hmeet hrun).1
  refine ⟨_, _, rfl, rfl, rfl, ?_⟩
  refine hfinal _ rfl jobId _ rfl rfl later _ ?_ rfl
  exact stepsMeet_of_checkSteps (isOrderly jobLib) (fun _ _ => orderly_of_isOrderly) rfl

open Sample Core.Sample in
/-- The first attempt outlives its lease. The job is leased again, fails twice and is a dead
letter; then the first attempt fails, and its outcome, computed from the counter of its own lease,
makes the job pending again. Three deliveries have been begun where two are allowed. -/
theorem dead_letter_revived :
    let schedule : List OutboxAction := [.leaseDue 8 quickConfig, .spawn, .begin 0, .tick 100,
      .applyLogTail, .releaseExpiredLeases, .leaseDue 8 quickConfig, .spawn, .begin 1,
      .deliver 1 (.failed "refused"), .finish 1 quickConfig sampleCtx, .tick 1,
      .leaseDue 8 quickConfig, .spawn, .begin 1, .deliver 1 (.failed "refused"),
      .finish 1 quickConfig sampleCtx]
    let later : List OutboxAction := [.deliver 0 (.failed "refused"),
      .finish 0 quickConfig sampleCtx]
    ∃ s s', runSteps (Outbox.step jobLib) schedule jobOutbox = some s ∧
      (s.queue[jobId]?).map JobRow.state = some .deadLetter ∧
      runSteps (Outbox.step jobLib) later s = some s' ∧
      (s'.queue[jobId]?).map JobRow.state = some .pending ∧
      s'.begun.count jobId = 3 ∧ (s'.queue[jobId]?).map JobRow.maxAttempts = some 2 := by
  exact ⟨_, _, rfl, rfl, rfl, rfl, rfl, rfl⟩

end Outbox

end LatLng.Webhook
