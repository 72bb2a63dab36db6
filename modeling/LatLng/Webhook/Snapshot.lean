import LatLng.Webhook.Sample

/-! A snapshot of the queue. The rows are written out as records that put them back, in the order
of their numbers in the old log; the new log gives them new numbers in the same order. -/

namespace LatLng.Webhook

open LatLng.Core Geofence Std List

/-- A job that is still to be delivered or given up, without its place in the log. The event id
and the hook of a row are those of its event. -/
structure UndeliveredJob where
  event : GeofenceEvent
  endpoint : String
  attemptsUsed : Nat
  maxAttempts : Nat
  nextAttemptAtMs : Nat
  /-- The text with which the job was given up. -/
  deadLetter : Option String

def JobRow.undelivered (row : JobRow) : UndeliveredJob where
  event := row.payload
  endpoint := row.endpoint
  attemptsUsed := row.attemptsUsed
  maxAttempts := row.maxAttempts
  nextAttemptAtMs := row.nextAttemptAtMs
  deadLetter := if row.state = .deadLetter then some (row.lastError.getD "dead-lettered") else none

namespace Queue

def undelivered (q : Queue) : ExtTreeMap String UndeliveredJob :=
  q.map fun _ row => row.undelivered

def applyRecords (q : Queue) (numbered : List (Nat × LogRecord)) : Queue :=
  numbered.foldl (fun q r => q.applyLogRecord r.1 r.2) q

theorem applyRecords_append (q : Queue) (first rest : List (Nat × LogRecord)) :
    q.applyRecords (first ++ rest) = (q.applyRecords first).applyRecords rest :=
  foldl_append

def snapshotRows (q : Queue) : List (String × JobRow) :=
  q.toList.insertionSort fun a b => a.2.createdFromSequence ≤ b.2.createdFromSequence

variable {q : Queue} {job : String × JobRow}

theorem mem_snapshotRows :
    job ∈ q.snapshotRows ↔ q[job.1]? = some job.2 := by
  rw [snapshotRows, mem_insertionSort, ← ExtTreeMap.mem_toList_iff_getElem?_eq_some]

theorem nodup_snapshotRows (q : Queue) : (q.snapshotRows.map Prod.fst).Nodup := by
  have hperm : (q.snapshotRows.map Prod.fst).Perm (q.toList.map Prod.fst) :=
    (perm_insertionSort _ _).map _
  rw [hperm.nodup_iff, ExtTreeMap.map_fst_toList_eq_keys]
  exact ExtTreeMap.nodup_keys

/-! ### What the records put back -/

def restored (sequence : Nat) (job : String × JobRow) : JobRow :=
  let row := JobRow.enqueued sequence
    { jobId := job.1, event := job.2.payload, endpoint := job.2.endpoint
      attemptsUsed := job.2.attemptsUsed, maxAttempts := job.2.maxAttempts
      nextAttemptAtMs := job.2.nextAttemptAtMs }
  if job.2.state = .deadLetter then
    row.deadLetter job.2.attemptsUsed (job.2.lastError.getD "dead-lettered")
  else row

theorem restored_spec (sequence : Nat) (job : String × JobRow) :
    (restored sequence job).undelivered = job.2.undelivered ∧
      (restored sequence job).state =
        (if job.2.state = .deadLetter then .deadLetter else .pending) ∧
      (restored sequence job).nextAttemptAtMs = job.2.nextAttemptAtMs ∧
      (restored sequence job).createdFromSequence = sequence := by
  by_cases hdead : job.2.state = .deadLetter <;>
    simp [restored, hdead, JobRow.undelivered, JobRow.enqueued, JobRow.deadLetter]

variable {numbered : List (Nat × LogRecord)}

theorem applyRecords_rowRecords (h : numbered.map Prod.snd = rowRecords job) (q : Queue) :
    ∃ n ∈ numbered.map Prod.fst, ∀ id,
      (q.applyRecords numbered)[id]? = if job.1 = id then some (restored n job) else q[id]? := by
  obtain ⟨⟨n, record⟩, rest, rfl, hrecord, hrest⟩ := map_eq_cons_iff.1 h
  subst hrecord
  refine ⟨n, mem_cons_self, fun id => ?_⟩
  by_cases hdead : job.2.state = .deadLetter
  · rw [if_pos hdead] at hrest
    obtain ⟨⟨m, record⟩, nothing, rfl, hlast, hnil⟩ := map_eq_cons_iff.1 hrest
    subst hlast
    cases map_eq_nil_iff.1 hnil
    rw [applyRecords, foldl_cons, foldl_cons, foldl_nil, getElem?_applyLogRecord,
      getElem?_applyLogRecord]
    by_cases hid : job.1 = id
    · simp [recordEffect, hid, JobEffect.act, restored, hdead]
      rfl
    · simp [recordEffect, hid, JobEffect.act]
  · rw [if_neg hdead] at hrest
    cases map_eq_nil_iff.1 hrest
    rw [applyRecords, foldl_cons, foldl_nil, getElem?_applyLogRecord]
    by_cases hid : job.1 = id
    · simp [recordEffect, hid, JobEffect.act, restored, hdead]
    · simp [recordEffect, hid, JobEffect.act]

theorem applyRecords_rows {rows : List (String × JobRow)} (hkeys : (rows.map Prod.fst).Nodup)
    (h : numbered.map Prod.snd = rows.flatMap rowRecords) (q : Queue) :
    ∃ number : String → Nat,
      ((numbered.map Prod.fst).Pairwise (· < ·) → rows.Pairwise fun a b =>
        number a.1 < number b.1) ∧
      (∀ job ∈ rows, number job.1 ∈ numbered.map Prod.fst ∧
        (q.applyRecords numbered)[job.1]? = some (restored (number job.1) job)) ∧
      ∀ id, id ∉ rows.map Prod.fst → (q.applyRecords numbered)[id]? = q[id]? := by
  induction rows generalizing numbered q with
  | nil =>
    cases map_eq_nil_iff.1 h
    exact ⟨fun _ => 0, fun _ => .nil, fun _ hjob => absurd hjob not_mem_nil, fun _ _ => rfl⟩
  | cons job rows ih =>
    obtain ⟨hnew, hrest⟩ := nodup_cons.1 hkeys
    obtain ⟨first, later, rfl, hfirst, hlater⟩ := map_eq_append_iff.1 h
    obtain ⟨n, hn, hown⟩ := applyRecords_rowRecords hfirst q
    obtain ⟨number, hsorted, hrows, hothers⟩ := ih hrest hlater (q.applyRecords first)
    have hne : ∀ other ∈ rows, other.1 ≠ job.1 :=
      fun other hother heq => hnew (heq ▸ mem_map_of_mem hother)
    have hnumber : ∀ other ∈ rows, Function.update number job.1 n other.1 = number other.1 :=
      fun other hother => Function.update_of_ne (hne other hother) _ _
    simp only [applyRecords_append, map_append, mem_append, pairwise_append]
    refine ⟨Function.update number job.1 n, fun hinc => pairwise_cons.2 ⟨?_, ?_⟩, ?_, ?_⟩
    · intro other hother
      rw [Function.update_self, hnumber other hother]
      exact hinc.2.2 n hn _ (hrows other hother).1
    · refine (hsorted hinc.2.1).imp_of_mem fun ha hb hlt => ?_
      rwa [hnumber _ ha, hnumber _ hb]
    · intro other hother
      rcases mem_cons.1 hother with rfl | hother
      · rw [Function.update_self, hothers _ hnew, hown, if_pos rfl]
        exact ⟨.inl hn, rfl⟩
      · rw [hnumber other hother]
        exact ⟨.inr (hrows other hother).1, (hrows other hother).2⟩
    · intro id hid
      rw [map_cons, mem_cons, not_or] at hid
      rw [hothers id hid.2, hown, if_neg (Ne.symm hid.1)]

theorem applyRecords_snapshot (h : numbered.map Prod.snd = q.snapshotLogRecords) :
    ∃ number : String → Nat,
      ((numbered.map Prod.fst).Pairwise (· < ·) →
        q.snapshotRows.Pairwise fun a b => number a.1 < number b.1) ∧
      applyRecords ∅ numbered = q.map fun id row => restored (number id) (id, row) := by
  obtain ⟨number, hsorted, hrows, hothers⟩ := applyRecords_rows (nodup_snapshotRows q) h ∅
  refine ⟨number, hsorted, ExtTreeMap.ext_getElem? fun id => ?_⟩
  rw [ExtTreeMap.getElem?_map]
  cases hrow : q[id]? with
  | some row => exact (hrows (id, row) (mem_snapshotRows.2 hrow)).2
  | none =>
    refine (hothers id fun hid => ?_).trans ExtTreeMap.getElem?_empty
    obtain ⟨job, hjob, rfl⟩ := mem_map.1 hid
    cases hrow.symm.trans (mem_snapshotRows.1 hjob)

theorem undelivered_snapshot (h : numbered.map Prod.snd = q.snapshotLogRecords) :
    (applyRecords ∅ numbered).undelivered = q.undelivered := by
  obtain ⟨number, -, heq⟩ := applyRecords_snapshot h
  rw [heq, undelivered, undelivered]
  refine ExtTreeMap.ext_getElem? fun id => ?_
  simp only [ExtTreeMap.getElem?_map, Option.map_map]
  congr 1
  funext row
  exact (restored_spec _ _).1

end Queue

/-! ### Runs of a queue -/

inductive QueueStep where
  | record (sequence : Nat) (record : LogRecord)
  | releaseExpiredLeases (nowMs : Nat)
  | leaseDue (limit leaseMs nowMs : Nat)

def QueueStep.sequence? : QueueStep → Option Nat
  | .record sequence _ => some sequence
  | _ => none

namespace Queue

def step (q : Queue) : QueueStep → Queue
  | .record sequence record => q.applyLogRecord sequence record
  | .releaseExpiredLeases nowMs => q.releaseExpiredLeases nowMs
  | .leaseDue limit leaseMs nowMs => (q.leaseDue limit leaseMs nowMs).2

def run (steps : List QueueStep) : Queue := steps.foldl step ∅

structure Apart (q : Queue) (used : List Nat) : Prop where
  used : ∀ (id : String) row, q[id]? = some row → row.createdFromSequence ∈ used
  apart : ∀ (id id' : String) row row', q[id]? = some row → q[id']? = some row' →
    row.createdFromSequence = row'.createdFromSequence → id = id'

variable {q : Queue} {used : List Nat}

theorem Apart.of_kept {q' : Queue} (h : q.Apart used)
    (hkept : ∀ (id : String) row', q'[id]? = some row' →
      ∃ row, q[id]? = some row ∧ row'.createdFromSequence = row.createdFromSequence) :
    q'.Apart used where
  used id row' hrow' := by
    obtain ⟨row, hrow, hsame⟩ := hkept id row' hrow'
    exact hsame ▸ h.used id row hrow
  apart id id' row₁ row₂ h₁ h₂ heq := by
    obtain ⟨row, hrow, hsame⟩ := hkept id row₁ h₁
    obtain ⟨row', hrow', hsame'⟩ := hkept id' row₂ h₂
    exact h.apart id id' row row' hrow hrow' (hsame.symm.trans (heq.trans hsame'))

theorem Apart.record (h : q.Apart used) {sequence : Nat}
    (hfresh : sequence ∉ used) (record : LogRecord) :
    (q.applyLogRecord sequence record).Apart (used ++ [sequence]) := by
  have hcases : ∀ {id : String} {row}, (q.applyLogRecord sequence record)[id]? = some row →
      (∃ r, q[id]? = some r ∧ row.createdFromSequence = r.createdFromSequence) ∨
        (∃ r, record = .webhookEnqueue r ∧ r.jobId = id) ∧ row.createdFromSequence = sequence := by
    intro id row hrow
    rw [getElem?_applyLogRecord] at hrow
    exact created_recordEffect hrow
  constructor
  · intro id row hrow
    rcases hcases hrow with ⟨r, hr, hsame⟩ | ⟨-, hnew⟩
    · exact mem_append_left _ (hsame ▸ h.used id r hr)
    · exact mem_append_right _ (mem_singleton.2 hnew)
  · intro id id' row row' hrow hrow' heq
    rcases hcases hrow with ⟨r, hr, hsame⟩ | ⟨⟨r, rfl, hid⟩, hnew⟩ <;>
      rcases hcases hrow' with ⟨r', hr', hsame'⟩ | ⟨⟨r', hrecord, hid'⟩, hnew'⟩
    · exact h.apart id id' r r' hr hr' (hsame.symm.trans (heq.trans hsame'))
    · refine absurd (h.used id r hr) ?_
      rwa [← hsame, heq, hnew']
    · refine absurd (h.used id' r' hr') ?_
      rwa [← hsame', ← heq, hnew]
    · cases hrecord
      exact hid.symm.trans hid'

theorem Apart.step (h : q.Apart used) {action : QueueStep}
    (hfresh : ∀ sequence ∈ action.sequence?, sequence ∉ used) :
    (q.step action).Apart (used ++ action.sequence?.toList) := by
  cases action with
  | record sequence record => exact h.record (hfresh sequence rfl) record
  | releaseExpiredLeases nowMs =>
    refine (append_nil used).symm ▸ h.of_kept fun id row' hrow' => ?_
    rw [Queue.step, getElem?_releaseExpiredLeases] at hrow'
    obtain ⟨row, hrow, rfl⟩ := Option.map_eq_some_iff.1 hrow'
    exact ⟨row, hrow, by split <;> rfl⟩
  | leaseDue limit leaseMs nowMs =>
    refine (append_nil used).symm ▸ h.of_kept fun id row' hrow' => ?_
    rw [Queue.step, getElem?_leaseDue] at hrow'
    split at hrow'
    · obtain ⟨row, hrow, rfl⟩ := Option.map_eq_some_iff.1 hrow'
      exact ⟨row, hrow, rfl⟩
    · exact ⟨row', hrow', rfl⟩

variable {steps : List QueueStep}

theorem apart_run (h : (steps.filterMap QueueStep.sequence?).Nodup) :
    (run steps).Apart (steps.filterMap QueueStep.sequence?) := by
  induction steps using reverseRecOn with
  | nil => exact ⟨fun _ _ hrow => (by cases hrow), fun _ _ _ _ hrow => (by cases hrow)⟩
  | append_singleton steps action ih =>
    have hlast : [action].filterMap QueueStep.sequence? = action.sequence?.toList := by
      cases action <;> rfl
    rw [filterMap_append, hlast] at h ⊢
    obtain ⟨hbefore, -, hnew⟩ := nodup_append.1 h
    rw [run, foldl_append, foldl_cons, foldl_nil]
    exact (ih hbefore).step fun sequence hs hused => hnew sequence hused sequence
      (Option.mem_toList.2 hs) rfl

/-! ### The order of the jobs -/

def releaseAll (q : Queue) : Queue :=
  q.map fun _ row => if row.state = .leased then row.release else row

theorem dueJobs_map {f g : String → JobRow → JobRow} (limit nowMs : Nat)
    (hdue : ∀ id row, (f id row).due nowMs = (g id row).due nowMs)
    (hearlier : ∀ a ∈ q.toList, ∀ b ∈ q.toList,
      (earlier (a.1, f a.1 a.2) (b.1, f b.1 b.2) ↔ earlier (a.1, g a.1 a.2) (b.1, g b.1 b.2))) :
    ((dueJobs (q.map f) limit nowMs).map Prod.fst) =
      (dueJobs (q.map g) limit nowMs).map Prod.fst := by
  have hmap : ∀ h : String → JobRow → JobRow, (∀ id row, (h id row).due nowMs = (g id row).due nowMs) →
      (∀ a ∈ q.toList, ∀ b ∈ q.toList, (earlier (a.1, g a.1 a.2) (b.1, g b.1 b.2) ↔
        earlier (a.1, h a.1 a.2) (b.1, h b.1 b.2))) →
      (dueJobs (q.map h) limit nowMs).map Prod.fst =
        (((q.toList.filter fun job => (g job.1 job.2).due nowMs).insertionSort
          fun a b => earlier (a.1, g a.1 a.2) (b.1, g b.1 b.2)).take limit).map Prod.fst := by
    intro h hdue' hearlier'
    have hfilter : ((q.map h).toList.filter fun job => job.2.due nowMs) =
        (q.toList.filter fun job => (g job.1 job.2).due nowMs).map
          fun job => (job.1, h job.1 job.2) := by
      rw [ExtTreeMap.toList_map, filter_map]
      exact congrArg _ (filter_congr fun job _ => hdue' job.1 job.2)
    rw [dueJobs, hfilter, ← map_insertionSort
      (fun a b => earlier (a.1, g a.1 a.2) (b.1, g b.1 b.2)), ← map_take, map_map]
    · rfl
    · exact fun a ha b hb => hearlier' a (mem_filter.1 ha).1 b (mem_filter.1 hb).1
  rw [hmap f hdue fun a ha b hb => (hearlier a ha b hb).symm,
    hmap g (fun _ _ => rfl) fun _ _ _ _ => Iff.rfl]

theorem jobIds_leaseDue (q : Queue) (limit leaseMs nowMs : Nat) :
    (q.leaseDue limit leaseMs nowMs).1.map QueueJob.jobId =
      (q.dueJobs limit nowMs).map Prod.fst := by
  rw [leaseDue]
  split
  next hzero =>
    subst hzero
    rfl
  · rw [map_map]
    rfl

/-- A snapshot of a queue puts every job back as one that waits or was given up, and the jobs are
handed out in the order in which the old queue would hand them out without its leases. -/
theorem snapshot_round_trip
    (hdistinct : (steps.filterMap QueueStep.sequence?).Nodup) {numbered : List (Nat × LogRecord)}
    (hrecords : numbered.map Prod.snd = (run steps).snapshotLogRecords)
    (hincreasing : (numbered.map Prod.fst).Pairwise (· < ·)) :
    (applyRecords ∅ numbered).undelivered = (run steps).undelivered ∧
    (∀ (jobId : String) row, (applyRecords ∅ numbered)[jobId]? = some row →
      row.state ≠ .leased) ∧
    ∀ limit leaseMs nowMs,
      ((applyRecords ∅ numbered).leaseDue limit leaseMs nowMs).1.map QueueJob.jobId =
        ((run steps).releaseAll.leaseDue limit leaseMs nowMs).1.map QueueJob.jobId := by
  have hapart := apart_run hdistinct
  refine ⟨undelivered_snapshot hrecords, ?_⟩
  generalize run steps = q at hrecords hapart
  obtain ⟨number, hsorted, heq⟩ := applyRecords_snapshot hrecords
  rw [heq]
  constructor
  · intro jobId row hrow
    rw [ExtTreeMap.getElem?_map] at hrow
    obtain ⟨old, -, rfl⟩ := Option.map_eq_some_iff.1 hrow
    rw [(restored_spec _ _).2.1]
    split <;> exact nofun
  · intro limit leaseMs nowMs
    -- the new numbers are in the order of the old ones
    have hstrict : q.snapshotRows.Pairwise fun a b =>
        a.2.createdFromSequence < b.2.createdFromSequence ∧ number a.1 < number b.1 := by
      have hle : q.snapshotRows.Pairwise fun a b =>
          a.2.createdFromSequence ≤ b.2.createdFromSequence := pairwise_insertionSort _ _
      have hkeys := pairwise_map.1 (nodup_snapshotRows q)
      refine ((hle.and hkeys).and (hsorted hincreasing)).imp_of_mem ?_
      rintro a b ha hb ⟨⟨hab, hne⟩, hnumber⟩
      refine ⟨Nat.lt_of_le_of_ne hab fun hsame => hne ?_, hnumber⟩
      exact hapart.apart a.1 b.1 a.2 b.2 (mem_snapshotRows.1 ha) (mem_snapshotRows.1 hb) hsame
    have horder : ∀ ⦃a⦄, a ∈ q.snapshotRows → ∀ ⦃b⦄, b ∈ q.snapshotRows →
        (a.2.createdFromSequence ≤ b.2.createdFromSequence ↔ number a.1 ≤ number b.1) :=
      List.Pairwise.forall_of_forall_of_flip (fun _ _ => by simp)
        (hstrict.imp fun h => by omega) (hstrict.imp fun h => by unfold flip; omega)
    rw [jobIds_leaseDue, jobIds_leaseDue, releaseAll]
    refine dueJobs_map limit nowMs (fun id row => ?_) fun a ha b hb => ?_
    · have hspec := restored_spec (number id) (id, row)
      rw [JobRow.due, JobRow.due, hspec.2.1, hspec.2.2.1]
      cases hstate : row.state <;> simp [hstate, JobRow.release]
    · have hrelease : ∀ row : JobRow,
          (if row.state = .leased then row.release else row).nextAttemptAtMs = row.nextAttemptAtMs ∧
          (if row.state = .leased then row.release else row).createdFromSequence =
            row.createdFromSequence := by
        intro row
        split <;> exact ⟨rfl, rfl⟩
      have hab := horder ((mem_insertionSort _).2 ha) ((mem_insertionSort _).2 hb)
      simp only [earlier, (restored_spec _ _).2.2, hrelease, hab]

end Queue

open Sample in
/-- Two jobs, of which one is leased when the snapshot is made. -/
theorem snapshot_of_leased_job :
    let steps := [QueueStep.record 5 (.webhookEnqueue gateRecord),
      .record 7 (.webhookEnqueue jobRecord), .leaseDue 1 10 0]
    let numbered := [(1, .webhookEnqueue gateRecord), (2, .webhookEnqueue jobRecord)]
    let new := Queue.applyRecords ∅ numbered
    (Queue.run steps)["jobjob:2"]?.map JobRow.state = some .leased ∧
      (Queue.run steps)[jobId]?.map JobRow.state = some .pending ∧
      new.undelivered = (Queue.run steps).undelivered ∧
      (new.leaseDue 2 10 0).1.map QueueJob.jobId =
        ((Queue.run steps).releaseAll.leaseDue 2 10 0).1.map QueueJob.jobId := by
  intro steps numbered new
  obtain ⟨hjobs, -, horder⟩ :=
    @Queue.snapshot_round_trip steps (by decide) numbered rfl (by decide)
  exact ⟨rfl, rfl, hjobs, horder 2 10 0⟩

end LatLng.Webhook
