import LatLng.Webhook.Flush

/-! The queue as a materialization of the log, over everything a server does: writes, outbox
steps, flushes, following a leader and restarts. -/

namespace LatLng.Webhook

open LatLng.Core Storage LatLng.Lib List

structure Server where
  main : Coordinated
  following : Bool := false
  /-- The outbox has seen that it does. -/
  wasFollowing : Bool := false
  /-- The outbox has emptied the queue and is about to take over the log position. -/
  entering : Bool := false

inductive ServerAction where
  | main (action : FlushAction)
  | follow
  | unfollow
  | replicate (ctx : Ctx) (entries : List StorageEntry)
  | resync
  | observe
  | rebase
  | restart (ctx : Ctx) (config : Config) (follows : Bool)

variable (lib : Lib)

def OutboxAction.leading : OutboxAction → Bool
  | .applyLogTail => true
  | .releaseExpiredLeases => true
  | .leaseDue _ _ => true
  | .spawn => true
  | .finish _ _ _ => true
  | _ => false

def FlushAction.leading : FlushAction → Bool
  | .outbox action => action.leading
  | _ => false

namespace Server

def outbox (s : Server) : Outbox := s.main.outbox

def setOutbox (s : Server) (outbox : Outbox) : Server :=
  { s with main := { s.main with outbox } }

def start (ctx : Ctx) (storage : LogStore) (config : Config) (follows : Bool) : Option Server :=
  match (build lib ctx storage config).1 with
  | .error _ => none
  | .ok db =>
    if follows then
      some { main := { outbox := { db, queue := ∅, lastAppliedSequence := db.nextSequence
                                   nowMs := ctx.nowMs } }
             following := true }
    else
      match Outbox.rebuildWebhookQueueFromLog lib db ctx.nowMs with
      | .error _ => none
      | .ok outbox => some { main := { outbox } }

def step (action : ServerAction) (s : Server) : Option Server :=
  match action with
  | .main action =>
    if action.leading && (s.wasFollowing || s.entering) then none
    else (s.main.step lib action).map fun main => { s with main }
  | .follow => some { s with following := true }
  | .unfollow => some { s with following := false }
  | .replicate ctx entries =>
    some (s.setOutbox { s.outbox with
      db := (s.outbox.db.applyReplicatedEntries lib ctx entries).2 })
  | .resync =>
    some (s.setOutbox { s.outbox with db := s.outbox.db.resetReplicationState.2 })
  | .observe =>
    if s.entering then none
    else if s.following then
      if s.wasFollowing then some s
      else some { s.setOutbox { s.outbox with queue := s.outbox.queue.reset } with entering := true }
    else some { s with wasFollowing := false }
  | .rebase =>
    if s.entering then
      some { s.setOutbox { s.outbox with lastAppliedSequence := s.outbox.db.nextSequence } with
        entering := false, wasFollowing := true }
    else none
  | .restart ctx config follows => start lib ctx s.outbox.db.storage config follows

end Server

variable {lib}

/-! ### Positions in the log -/

theorem tailOf_append (entries added : List StorageEntry) (n : Nat) :
    tailOf (entries ++ added) n = tailOf entries n ++ tailOf added n := filter_append _ _

variable {entries : List StorageEntry}

theorem tailOf_eq_self {n : Nat}
    (h : ∀ entry ∈ entries, n < entry.sequence) : tailOf entries n = entries :=
  filter_eq_self.2 fun entry he => decide_eq_true (h entry he)

theorem tailOf_eq_nil {n : Nat}
    (h : ∀ entry ∈ entries, entry.sequence ≤ n) : tailOf entries n = [] :=
  filter_eq_nil_iff.2 fun entry he hlt =>
    absurd (of_decide_eq_true hlt) (Nat.not_lt.2 (h entry he))

theorem upTo_append_tailOf (h : Increasing entries) (n : Nat) :
    (tailOf entries 0).filter (fun entry => entry.sequence ≤ n) ++ tailOf entries n =
      tailOf entries 0 := by
  induction entries with
  | nil => rfl
  | cons entry entries ih =>
    obtain ⟨hfirst, hrest⟩ := pairwise_cons.1 h
    have ih := ih hrest
    by_cases hn : entry.sequence ≤ n
    · have htail : tailOf (entry :: entries) n = tailOf entries n :=
        filter_cons_of_neg (by simpa using hn)
      rw [htail]
      by_cases hzero : 0 < entry.sequence
      · have hkeep : tailOf (entry :: entries) 0 = entry :: tailOf entries 0 :=
          filter_cons_of_pos (decide_eq_true hzero)
        rw [hkeep, filter_cons, if_pos (decide_eq_true hn), cons_append, ih]
      · have hdrop : tailOf (entry :: entries) 0 = tailOf entries 0 :=
          filter_cons_of_neg (by simpa using hzero)
        rw [hdrop, ih]
    · -- everything from here on is behind the position
      have hall : ∀ e ∈ entry :: entries, n < e.sequence := by
        intro e he
        rcases mem_cons.1 he with rfl | he
        · omega
        · have := hfirst e he
          omega
      rw [tailOf_eq_self hall, tailOf_eq_self fun e he => (Nat.zero_le n).trans_lt (hall e he),
        filter_eq_nil_iff.2 fun e he hle =>
          absurd (of_decide_eq_true hle) (Nat.not_le.2 (hall e he)), nil_append]

theorem tailOf_lastOf (h : Increasing entries) (n : Nat) :
    tailOf entries (lastOf (tailOf entries n) n) = [] := by
  refine tailOf_eq_nil fun entry he => ?_
  by_cases hn : entry.sequence ≤ n
  · rw [lastOf]
    cases hlast : (tailOf entries n).getLast? with
    | none => exact hn
    | some last =>
      have hlt := of_decide_eq_true (mem_filter.1 (mem_of_getLast? hlast)).2
      exact hn.trans hlt.le
  · have hmem : entry ∈ tailOf entries n :=
      mem_filter.2 ⟨he, decide_eq_true (Nat.not_le.1 hn)⟩
    have hle : entry.sequence ≤ lastSequence (tailOf entries n) :=
      Increasing.le_lastSequence (h.filter _) hmem
    rw [lastSequence] at hle
    rw [lastOf]
    cases hlast : (tailOf entries n).getLast? with
    | none =>
      rw [getLast?_eq_none_iff] at hlast
      rw [hlast] at hmem
      cases hmem
    | some last =>
      rw [hlast] at hle
      exact hle

/-! ### A queue that is up to date except for the tail -/

variable (lib) in
/-- Reading the log behind the cursor into the rows gives what reading the whole log into an
empty table gives. -/
structure Current (db : Db) (cursor : Nat) (rows : String → Option JobRow) : Prop where
  rows : ∀ jobId,
    ((logEffect lib jobId (tailOf db.storage.entries cursor)).act (rows jobId)).map
      JobRow.unleased = (logEffect lib jobId (tailOf db.storage.entries 0)).act none
  reached : cursor ≤ db.nextSequence ∨ ∃ entry ∈ db.storage.entries, cursor ≤ entry.sequence

namespace Current

variable {db db' : Db} {cursor : Nat} {rows rows' : String → Option JobRow}
  (h : Current lib db cursor rows)

include h

theorem congr
    (hrows : ∀ jobId, (rows' jobId).map JobRow.unleased = (rows jobId).map JobRow.unleased) :
    Current lib db cursor rows' := by
  refine ⟨fun jobId => ?_, h.reached⟩
  rw [← h.rows jobId, logEffect_unleased, logEffect_unleased, hrows]

theorem sameLog
    (hlog : db'.storage.entries = db.storage.entries) (hnext : db'.nextSequence = db.nextSequence) :
    Current lib db' cursor rows := by
  refine ⟨fun jobId => ?_, ?_⟩
  · rw [hlog]
    exact h.rows jobId
  · rw [hlog, hnext]
    exact h.reached

variable (hinc : Increasing db.storage.entries)

include hinc

variable {P : StorageEntry → Prop}

theorem cursor_lt (hext : db.Extends P db') :
    ∃ added, db'.storage.entries = db.storage.entries ++ added ∧
      ∀ entry ∈ added, cursor < entry.sequence := by
  obtain ⟨added, hlog, hinc', hadded⟩ := hext.log
  refine ⟨added, hlog, fun entry he => ?_⟩
  rcases h.reached with hnext | ⟨last, hlast, hle⟩
  · exact hnext.trans_lt (hadded entry he).1
  · have hpair := hinc' hinc
    rw [hlog] at hpair
    exact hle.trans_lt ((pairwise_append.1 hpair).2.2 last hlast entry he)

theorem extend (hext : db.Extends P db') :
    Current lib db' cursor rows := by
  obtain ⟨added, hlog, hcursor⟩ := h.cursor_lt hinc hext
  refine ⟨fun jobId => ?_, ?_⟩
  · rw [hlog, tailOf_append, tailOf_append, tailOf_eq_self hcursor,
      tailOf_eq_self fun entry he => (Nat.zero_le cursor).trans_lt (hcursor entry he),
      act_logEffect_append, act_logEffect_append, logEffect_unleased, h.rows jobId]
  · rcases h.reached with hnext | ⟨last, hlast, hle⟩
    · exact .inl (hnext.trans hext.sequence)
    · exact .inr ⟨last, by rw [hlog]; exact mem_append_left _ hlast, hle⟩

theorem outcome {entry : StorageEntry} {record : LogRecord} (hlogged : db.Logged [entry] db')
    (hdecode : decodeLogRecord lib entry.command = .ok record)
    (hrows : ∀ jobId, rows' jobId = (recordEffect jobId entry.sequence record).act (rows jobId)) :
    Current lib db' cursor rows' := by
  have hext : db.Extends (fun _ => True) db' := .of_logged hlogged fun _ _ => trivial
  have hcurrent := h.extend hinc hext
  obtain ⟨added, hlog, hcursor⟩ := h.cursor_lt hinc hext
  cases append_cancel_left (hlogged.log.symm.trans hlog)
  refine ⟨fun jobId => ?_, hcurrent.reached⟩
  have hentry : ∀ row, (logEffect lib jobId [entry]).act row =
      (recordEffect jobId entry.sequence record).act row := by
    intro row
    rw [act_logEffect_cons, entryEffect, hdecode]
    rfl
  rw [← hcurrent.rows jobId, hrows jobId, hlog, tailOf_append, tailOf_eq_self hcursor,
    act_logEffect_append, act_logEffect_append, hentry, hentry, JobEffect.act_act_act]

omit hinc in
theorem readPart {done rest : List StorageEntry}
    (hsplit : tailOf db.storage.entries cursor = done ++ rest)
    (hrows : ∀ jobId, rows' jobId = (logEffect lib jobId done).act (rows jobId)) :
    Current lib db cursor rows' := by
  refine ⟨fun jobId => ?_, h.reached⟩
  rw [← h.rows jobId, hsplit, act_logEffect_append, act_logEffect_append, hrows jobId,
    JobEffect.act_act]

theorem readAll (hrows : ∀ jobId, rows' jobId =
      (logEffect lib jobId (tailOf db.storage.entries cursor)).act (rows jobId)) :
    Current lib db (lastOf (tailOf db.storage.entries cursor) cursor) rows' := by
  refine ⟨fun jobId => ?_, ?_⟩
  · rw [tailOf_lastOf hinc, hrows jobId, ← h.rows jobId]
    rfl
  · rw [lastOf]
    cases hlast : (tailOf db.storage.entries cursor).getLast? with
    | none => exact h.reached
    | some last =>
      exact .inr ⟨last, (mem_filter.1 (mem_of_getLast? hlast)).1, le_rfl⟩

omit h in
theorem rebuilt (hrows : ∀ jobId, rows jobId =
      (logEffect lib jobId (tailOf db.storage.entries 0)).act none) :
    Current lib db (lastOf (tailOf db.storage.entries 0) 0) rows := by
  have hstart : Current lib db 0 fun _ => none := by
    refine ⟨fun jobId => ?_, .inl (Nat.zero_le _)⟩
    rw [logEffect_unleased]
    rfl
  exact hstart.readAll hinc hrows

omit h in
theorem resume (hnext : cursor ≤ db.nextSequence) (hnone : ∀ jobId, (logEffect lib jobId
      ((tailOf db.storage.entries 0).filter fun entry => entry.sequence ≤ cursor)).act none = none) :
    Current lib db cursor fun _ => none := by
  refine ⟨fun jobId => ?_, .inl hnext⟩
  rw [← upTo_append_tailOf hinc cursor, act_logEffect_append, hnone jobId, logEffect_unleased]
  rfl

theorem flushed (hempty : db'.storage.entries = []) (hle : db.nextSequence ≤ db'.nextSequence)
    (hlast : ∀ last ∈ db.storage.entries.getLast?, last.sequence < db'.nextSequence) :
    Current lib db' cursor fun _ => none := by
  refine ⟨fun jobId => by rw [hempty]; rfl, .inl ?_⟩
  rcases h.reached with hnext | ⟨entry, he, hcursor⟩
  · exact hnext.trans hle
  · have hseq := hinc.le_lastSequence he
    cases hl : db.storage.entries.getLast? with
    | none =>
      rw [getLast?_eq_none_iff] at hl
      rw [hl] at he
      cases he
    | some last =>
      rw [lastSequence, hl] at hseq
      exact hcursor.trans (hseq.trans (hlast last hl).le)

omit hinc in
omit h in
theorem moves (hcodec : KeepsJobs lib) {s s' : Outbox} {action : OutboxAction}
    (h : Current lib s.db s.lastAppliedSequence fun jobId => s.queue[jobId]?)
    (hinc : Increasing s.db.storage.entries) (hstores : s.db.storage.storesCommandLog)
    (hm : s.Moves lib action s') :
    Current lib s'.db s'.lastAppliedSequence fun jobId => s'.queue[jobId]? := by
  cases hm with
  | write ctx hw => exact h.extend hinc (Db.Grows.call hw ctx)
  | applyLogTail hgate =>
    obtain ⟨storage, queue, hsame, ⟨e, done, rest, heq, hsplit, hrows⟩ | ⟨heq, hrows⟩⟩ :=
      @Outbox.applyLogTail_cases lib s
    · rw [heq]
      exact (h.readPart hsplit hrows).sameLog hsame.entries rfl
    · rw [heq]
      exact (h.readAll hinc hrows).sameLog hsame.entries rfl
  | releaseExpiredLeases hgate => exact h.congr fun jobId => s.queue.unleased_releaseExpiredLeases _ _
  | leaseDue limit config hgate => exact h.congr fun jobId => s.queue.unleased_leaseDue _ _ _ _
  | begin hk =>
    obtain ⟨progress, begun, heq⟩ := s.begin_frame _ _
    rw [heq]
    exact h
  | @finish k attempt outcome config ctx hk hprogress hgate =>
    rcases { s with inFlight := s.inFlight.eraseIdx k }.finalizeWebhookAttempt_cases hcodec hstores
      config ctx attempt outcome with
      ⟨db, hun, heq⟩ | ⟨-, db, record, entry, -, hlogged, hdecode, heq⟩
    · rw [heq]
      exact h.extend (P := fun _ => True) hinc (.of_unlogged hun)
    · rw [heq]
      exact h.outcome hinc hlogged hdecode fun jobId => Queue.getElem?_applyLogRecord _ _ _ jobId
  | _ => exact h

end Current

theorem tailOf_of_applyLogTail {s : Outbox} (hinc : Increasing s.db.storage.entries)
    (h : (s.applyLogTail lib).1 = .ok ()) :
    tailOf (s.applyLogTail lib).2.db.storage.entries (s.applyLogTail lib).2.lastAppliedSequence =
      [] := by
  obtain ⟨storage, queue, hsame, ⟨e, done, rest, heq, -⟩ | ⟨heq, -⟩⟩ :=
    @Outbox.applyLogTail_cases lib s
  · rw [heq] at h
    cases h
  · rw [heq]
    rw [hsame.entries]
    exact tailOf_lastOf hinc _

/-! ### Outbox and flush -/

namespace Coordinated

def rows (c : Coordinated) : String → Option JobRow :=
  match c.flush with
  | .cut _ => fun _ => none
  | _ => fun jobId => c.outbox.queue[jobId]?

structure Healthy (c : Coordinated) : Prop where
  increasing : Increasing c.outbox.db.storage.entries
  stores : c.outbox.db.storage.storesCommandLog = true
  gate : c.flush = .idle ∨ c.outbox.flushing = true

variable {c c' : Coordinated} {action : FlushAction}

theorem Healthy.extend {P : StorageEntry → Prop} {db : Db} (h : c.Healthy)
    (hext : c.outbox.db.Extends P db) :
    Increasing db.storage.entries ∧ db.storage.storesCommandLog = true := by
  obtain ⟨-, -, hinc, -⟩ := hext.log
  exact ⟨hinc h.increasing, hext.stores.trans h.stores⟩

theorem Healthy.flushing (h : c.Healthy) {phase : FlushPhase} (hflush : c.flush = phase)
    (hne : phase ≠ .idle) : c.outbox.flushing = true := by
  rcases h.gate with hidle | hgate
  · exact absurd (hflush.symm.trans hidle) hne
  · exact hgate

theorem Healthy.step (h : c.Healthy) (hm : c.Moves lib action c') : c'.Healthy := by
  cases hm with
  | outbox hm =>
    obtain ⟨hinc, hstores⟩ := h.extend hm.log
    refine ⟨hinc, hstores, ?_⟩
    rw [hm.frame.2.1]
    exact h.gate
  | begin hflush => exact ⟨h.increasing, h.stores, .inr rfl⟩
  | @refused ctx e db hflush hdb =>
    have hcases := c.outbox.db.flushdb_cases lib ctx
    rw [hdb] at hcases
    rcases hcases with ⟨-, -, hgrows⟩ | ⟨hok, -⟩
    · obtain ⟨hinc, hstores⟩ := h.extend hgrows
      exact ⟨hinc, hstores, .inl rfl⟩
    · cases hok
  | @cut ctx db hflush hdb =>
    have hcases := c.outbox.db.flushdb_cases lib ctx
    rw [hdb] at hcases
    rcases hcases with ⟨e, he, -⟩ | ⟨-, hempty, hstores, -⟩
    · cases he
    · refine ⟨?_, hstores.trans h.stores, .inr (h.flushing hflush (by simp))⟩
      rw [hempty]
      exact increasing_nil
  | reset hflush | bump hflush => exact ⟨h.increasing, h.stores, .inr (h.flushing hflush (by simp))⟩
  | finish hflush => exact ⟨h.increasing, h.stores, .inl rfl⟩

theorem rows_eq (h : ∀ last, c.flush ≠ .cut last) : c.rows = fun jobId => c.outbox.queue[jobId]? := by
  rw [rows]
  split
  next last hflush => exact absurd hflush (h last)
  · rfl

theorem rows_cut {last : Nat} (h : c.flush = .cut last) : c.rows = fun _ => none := by
  rw [rows, h]

theorem rows_of_empty (h : c.outbox.queue = ∅) : c.rows = fun _ => none := by
  rw [rows]
  split
  · rfl
  · simp [h]

theorem current_step (hcodec : KeepsJobs lib) (h : c.Healthy)
    (hcurrent : Current lib c.outbox.db c.outbox.lastAppliedSequence c.rows)
    (hm : c.Moves lib action c') :
    Current lib c'.outbox.db c'.outbox.lastAppliedSequence c'.rows := by
  cases hm with
  | @outbox action s' hm =>
    by_cases hcut : ∃ last, c.flush = .cut last
    · obtain ⟨last, hflush⟩ := hcut
      have hgate := h.flushing hflush (by simp)
      rw [rows_cut hflush] at hcurrent
      rw [rows_cut (c := { c with outbox := s' }) hflush, (hm.queue_of_flushing hgate).2]
      exact hcurrent.extend h.increasing hm.log
    · have hne : ∀ last, c.flush ≠ .cut last := fun last hflush => hcut ⟨last, hflush⟩
      rw [rows_eq hne] at hcurrent
      rw [rows_eq (c := { c with outbox := s' }) hne]
      exact hcurrent.moves hcodec h.increasing h.stores hm
  | begin hflush | bump hflush | finish hflush =>
    rw [rows_eq (by rw [hflush]; simp)] at hcurrent
    exact hcurrent
  | @refused ctx e db hflush hdb =>
    rw [rows_eq (by rw [hflush]; simp)] at hcurrent
    have hcases := c.outbox.db.flushdb_cases lib ctx
    rw [hdb] at hcases
    rcases hcases with ⟨-, -, hgrows⟩ | ⟨hok, -⟩
    · exact hcurrent.extend h.increasing hgrows
    · cases hok
  | @cut ctx db hflush hdb =>
    have hcases := c.outbox.db.flushdb_cases lib ctx
    rw [hdb] at hcases
    rcases hcases with ⟨e, he, -⟩ | ⟨-, hempty, -, hle, hlast⟩
    · cases he
    · exact hcurrent.flushed h.increasing hempty hle (hlast h.stores)
  | reset hflush =>
    rw [rows_cut hflush] at hcurrent
    refine hcurrent.congr fun jobId => ?_
    rw [rows_eq (by simp)]
    simp

theorem Moves.queue_of_not_leading (hm : c.Moves lib action c') (hlead : action.leading = false) :
    c'.outbox.queue = c.outbox.queue ∨ c'.outbox.queue = ∅ := by
  cases hm with
  | outbox hm =>
    refine .inl ?_
    cases hm with
    | @begin k attempt hk =>
      obtain ⟨progress, begun, heq⟩ := c.outbox.begin_frame k attempt
      rw [heq]
      rfl
    | applyLogTail | releaseExpiredLeases | leaseDue | spawn | finish | forget => cases hlead
    | _ => rfl
  | reset hflush => exact .inr rfl
  | _ => exact .inl rfl

end Coordinated

/-! ### The server -/

namespace Server

def Leads (s : Server) : Prop :=
  s.following = false ∧ s.wasFollowing = false ∧ s.entering = false

variable (lib) in
structure Inv (s : Server) : Prop where
  healthy : s.main.Healthy
  empty : s.wasFollowing = true ∨ s.entering = true → s.outbox.queue = ∅
  current : s.Leads → Current lib s.outbox.db s.outbox.lastAppliedSequence s.main.rows

variable (lib) in
/-- Replication changes the log only while the node follows; the node leads again only after
the outbox has seen that it followed; and when the outbox resumes, the log has reached its
cursor and holds no job up to there. -/
def Noticed (action : ServerAction) (s : Server) : Prop :=
  match action with
  | .replicate _ _ => s.following = true
  | .resync => s.following = true
  | .unfollow => s.following = true → s.wasFollowing = true
  | .observe => s.following = false → s.wasFollowing = true →
      s.outbox.lastAppliedSequence ≤ s.outbox.db.nextSequence ∧
        ∀ jobId, (logEffect lib jobId ((tailOf s.outbox.db.storage.entries 0).filter
          fun entry => entry.sequence ≤ s.outbox.lastAppliedSequence)).act none = none
  | _ => True

structure LogKept (storage storage' : LogStore) : Prop where
  increasing : Increasing storage.entries → Increasing storage'.entries
  stores : storage'.storesCommandLog = storage.storesCommandLog

variable {storage : LogStore} {s' : Server}

theorem LogKept.of_sameLog {storage' : LogStore} (h : storage.SameLog storage') :
    LogKept storage storage' := by
  refine ⟨fun hinc => ?_, h.stores⟩
  rw [h.entries]
  exact hinc

theorem LogKept.replicate (db : Db) (ctx : Ctx) (entries : List StorageEntry) :
    LogKept db.storage (db.applyReplicatedEntries lib ctx entries).2.storage := by
  rcases db.applyReplicatedEntries_cases lib ctx entries with
    ⟨-, hr⟩ | ⟨-, e, storage, hstorage, -, hr⟩ | ⟨-, -, storage, hlog, hstores, hfits, hr⟩
  · rw [hr]
    exact .of_sameLog (LogStore.SameLog.refl _)
  · rw [hr, hstorage]
    exact .of_sameLog ⟨rfl, rfl⟩
  · rw [hr, Db.storage_appliedBatch]
    refine ⟨fun hinc => ?_, hstores⟩
    rw [hlog]
    exact (increasing_append_iff hinc).2 hfits

theorem LogKept.resync (db : Db) : LogKept db.storage db.resetReplicationState.2.storage := by
  have hcases := db.storage.snapshot_cases []
  rw [Db.resetReplicationState]
  rcases hs : db.storage.snapshot [] with ⟨r, storage⟩
  rw [hs] at hcases
  rcases hcases with ⟨e, rfl, hsame⟩ | ⟨rfl, hlog, hstores, -⟩
  · exact .of_sameLog hsame
  · refine ⟨fun _ => ?_, hstores⟩
    rw [hlog]
    exact increasing_nil

variable {s : Server}

theorem Healthy.relog (h : s.main.Healthy) {db : Db}
    (hkept : LogKept s.outbox.db.storage db.storage) :
    (s.setOutbox { s.outbox with db }).main.Healthy :=
  ⟨hkept.increasing h.increasing, hkept.stores.trans h.stores, h.gate⟩

theorem Inv.start {ctx : Ctx} {config : Config} {follows : Bool}
    (hinc : Increasing storage.entries) (hstores : storage.storesCommandLog)
    (h : Server.start lib ctx storage config follows = some s) : s.Inv lib := by
  rw [Server.start] at h
  split at h
  · cases h
  next db hbuild =>
    obtain ⟨hsame, -⟩ := build_log hbuild
    have hinc' : Increasing db.storage.entries := by
      rw [hsame.entries]
      exact hinc
    have hstores' := hsame.stores.trans hstores
    split at h
    · cases h
      -- a follower starts with an empty queue, and its outbox has still to notice
      exact ⟨⟨hinc', hstores', .inl rfl⟩, fun _ => rfl,
        fun hleads => absurd hleads.1 (by simp)⟩
    · split at h
      · cases h
      next outbox hrebuild =>
        cases h
        obtain ⟨storage', queue, hsame', hrows, rfl⟩ := Outbox.rebuild_cases hrebuild
        refine ⟨⟨?_, hsame'.stores.trans hstores', .inl rfl⟩,
          fun hor => absurd hor (by simp), fun _ => ?_⟩
        · rw [hsame'.entries]
          exact hinc'
        · exact (Current.rebuilt hinc' hrows).sameLog hsame'.entries rfl

theorem Inv.main (hcodec : KeepsJobs lib) {action : FlushAction}
    {main : Coordinated} (h : s.Inv lib)
    (hgate : action.leading → s.wasFollowing = false ∧ s.entering = false)
    (hm : s.main.Moves lib action main) : Inv lib { s with main } := by
  refine ⟨h.healthy.step hm, fun hwas => ?_, fun hleads => ?_⟩
  · cases hlead : action.leading with
    | true =>
      obtain ⟨hno, hno'⟩ := hgate hlead
      rcases hwas with hwas | hwas
      · exact absurd hwas (by simp [hno])
      · exact absurd hwas (by simp [hno'])
    | false =>
      rcases hm.queue_of_not_leading hlead with hqueue | hqueue
      · exact hqueue.trans (h.empty hwas)
      · exact hqueue
  · exact Coordinated.current_step hcodec h.healthy (h.current hleads) hm

theorem Inv.step (hcodec : KeepsJobs lib) {action : ServerAction}
    (h : s.Inv lib) (hcond : Noticed lib action s) (hstep : s.step lib action = some s') :
    s'.Inv lib := by
  cases action with
  | main action =>
    rw [Server.step] at hstep
    split at hstep
    · cases hstep
    next hgate =>
      obtain ⟨main, hmain, rfl⟩ := Option.map_eq_some_iff.1 hstep
      refine h.main hcodec (fun hlead => ?_) (Coordinated.moves_of_step hmain)
      simpa [hlead] using hgate
  | follow =>
    cases hstep
    exact ⟨h.healthy, h.empty, fun hleads => absurd hleads.1 (by simp)⟩
  | unfollow =>
    cases hstep
    refine ⟨h.healthy, h.empty, fun hleads => ?_⟩
    cases hfollowing : s.following with
    | false => exact h.current ⟨hfollowing, hleads.2⟩
    | true => exact absurd (hcond hfollowing) (by simpa using hleads.2.1)
  | replicate ctx entries =>
    cases hstep
    exact ⟨Healthy.relog h.healthy (.replicate _ _ _), h.empty,
      fun hleads => absurd (Eq.trans hleads.1.symm hcond) Bool.false_ne_true⟩
  | resync =>
    cases hstep
    exact ⟨Healthy.relog h.healthy (.resync _), h.empty,
      fun hleads => absurd (Eq.trans hleads.1.symm hcond) Bool.false_ne_true⟩
  | observe =>
    rw [Server.step] at hstep
    split at hstep
    · cases hstep
    next hentering =>
      split at hstep
      next hfollowing =>
        split at hstep
        · cases hstep
          exact h
        next hwas =>
          cases hstep
          exact ⟨⟨h.healthy.increasing, h.healthy.stores, h.healthy.gate⟩,
            fun _ => rfl,
            fun hleads => absurd hleads.1 (by simpa [Server.setOutbox] using hfollowing)⟩
      next hfollowing =>
        cases hstep
        refine ⟨h.healthy, fun hor => ?_, fun hleads => ?_⟩
        · exact absurd hor (by simpa using hentering)
        cases hwas : s.wasFollowing with
        | false => exact h.current ⟨hleads.1, hwas, hleads.2.2⟩
        | true =>
          obtain ⟨hreached, hnone⟩ := hcond hleads.1 hwas
          have hrows := Coordinated.rows_of_empty (h.empty (.inl hwas))
          have hresume := Current.resume h.healthy.increasing hreached hnone
          rw [← hrows] at hresume
          exact hresume
  | rebase =>
    rw [Server.step] at hstep
    split at hstep
    next hentering =>
      cases hstep
      exact ⟨⟨h.healthy.increasing, h.healthy.stores, h.healthy.gate⟩,
        fun _ => h.empty (.inr hentering), fun hleads => absurd hleads.2.1 (by simp)⟩
    · cases hstep
  | restart ctx config follows => exact Inv.start h.healthy.increasing h.healthy.stores hstep

theorem applyLogTail_of_step (h : s.step lib (.main (.outbox .applyLogTail)) = some s') :
    (s.wasFollowing = false ∧ s.entering = false) ∧
      s' = s.setOutbox (s.outbox.applyLogTail lib).2 ∧ s.outbox.flushing = false := by
  rw [Server.step] at h
  split at h
  · cases h
  next hgate =>
    obtain ⟨main, hmain, rfl⟩ := Option.map_eq_some_iff.1 h
    refine ⟨by simpa [FlushAction.leading, OutboxAction.leading] using hgate, ?_⟩
    cases Coordinated.moves_of_step hmain with
    | outbox hm =>
      cases hm with
      | applyLogTail hopen => exact ⟨rfl, hopen⟩

/-- In every run of a server whose outbox notices that the node follows before it leads again,
and which resumes with no job before its cursor: after a leader has read the log tail, its queue
is the queue of the whole log. -/
theorem queue_materializes_log (hcodec : KeepsJobs lib) {ctx : Ctx}
    {config : Config} {follows : Bool} {s₀ s : Server} {fresh : Outbox}
    (hinc : Increasing storage.entries) (hstores : storage.storesCommandLog)
    (hstart : Server.start lib ctx storage config follows = some s₀) {schedule : List ServerAction}
    (hmeet : StepsMeet (Server.step lib) (Noticed lib) schedule s₀)
    (hrun : runSteps (Server.step lib) schedule s₀ = some s) (hleader : s.following = false)
    (happlied : s.step lib (.main (.outbox .applyLogTail)) = some s')
    (hread : (s.outbox.applyLogTail lib).1 = .ok ())
    (hfresh : Outbox.rebuildWebhookQueueFromLog lib s'.outbox.db s'.outbox.nowMs = .ok fresh) :
    ∀ jobId : String, (s'.outbox.queue[jobId]?).map JobRow.unleased = fresh.queue[jobId]? := by
  have hinv := runSteps_invariant (fun _ _ _ h hcond hstep => Inv.step hcodec h hcond hstep)
    (Inv.start hinc hstores hstart) hmeet hrun
  have hinv' := Inv.step hcodec hinv
    (show Noticed lib (.main (.outbox .applyLogTail)) s from trivial) happlied
  obtain ⟨hgate, hmoved⟩ := applyLogTail_of_step happlied
  obtain ⟨rfl, hopen⟩ := hmoved
  have hcurrent := hinv'.current ⟨hleader, hgate⟩
  have hidle : s.main.flush = .idle :=
    hinv.healthy.gate.resolve_right (by rw [show s.main.outbox.flushing = false from hopen]; simp)
  rw [Coordinated.rows_eq (by simp [Server.setOutbox, hidle])] at hcurrent
  intro jobId
  obtain ⟨storage', queue', -, hrows, rfl⟩ := Outbox.rebuild_cases hfresh
  -- nothing is left behind the cursor
  have hnil : tailOf (s.setOutbox (s.outbox.applyLogTail lib).2).outbox.db.storage.entries
      (s.setOutbox (s.outbox.applyLogTail lib).2).outbox.lastAppliedSequence = [] :=
    tailOf_of_applyLogTail hinv.healthy.increasing hread
  rw [hrows jobId, ← hcurrent.rows jobId, hnil]
  rfl

open Sample Core.Sample in
theorem start_jobDb :
    Server.start jobLib { sampleCtx with nowMs := 0 } jobDb.storage {} false =
      some { main.outbox := jobOutbox } := rfl

open Sample Core.Sample in
/-- A leader that leased the job, failed to deliver it and read its own retry record back. -/
theorem queue_after_failed_attempt :
    let schedule : List ServerAction := [.main (.outbox (.leaseDue 1 quickConfig)),
      .main (.outbox .spawn), .main (.outbox (.begin 0)),
      .main (.outbox (.deliver 0 (.failed "refused"))),
      .main (.outbox (.finish 0 quickConfig sampleCtx))]
    ∃ s s' fresh, runSteps (Server.step jobLib) schedule { main.outbox := jobOutbox } = some s ∧
      s.step jobLib (.main (.outbox .applyLogTail)) = some s' ∧
      Outbox.rebuildWebhookQueueFromLog jobLib s'.outbox.db s'.outbox.nowMs = .ok fresh ∧
      (s'.outbox.queue[jobId]?).map JobRow.unleased = fresh.queue[jobId]? := by
  intro schedule
  have hmeet : StepsMeet (Server.step jobLib) (Noticed jobLib) schedule
      { main.outbox := jobOutbox } := by
    refine stepsMeet_of_checkSteps (fun action _ => match action with
      | .main _ => true
      | _ => false) (fun action s hcheck => ?_) rfl
    cases action with
    | main action => trivial
    | _ => cases hcheck
  refine ⟨_, _, _, rfl, rfl, rfl, ?_⟩
  exact queue_materializes_log (.of_lossless jobLib_lossless) (increasing_singleton _) rfl
    start_jobDb hmeet rfl rfl rfl rfl rfl jobId

open Sample Core.Sample in
/-- A leader with an undelivered job follows for a moment and leads again: the queue was
emptied and the cursor set behind the job, so the job stays out of the queue until a restart. -/
theorem job_lost_after_following :
    ∃ s₀ s s' fresh,
      Server.start jobLib { sampleCtx with nowMs := 0 } jobDb.storage {} false = some s₀ ∧
      runSteps (Server.step jobLib) [.follow, .observe, .rebase, .unfollow, .observe] s₀ = some s ∧
      s.following = false ∧ s.step jobLib (.main (.outbox .applyLogTail)) = some s' ∧
      (s.outbox.applyLogTail jobLib).1 = .ok () ∧
      Outbox.rebuildWebhookQueueFromLog jobLib s'.outbox.db s'.outbox.nowMs = .ok fresh ∧
      s'.outbox.queue[jobId]? = none ∧
      (fresh.queue[jobId]?).map JobRow.state = some .pending := by
  exact ⟨_, _, _, _, rfl, rfl, rfl, rfl, rfl, rfl, rfl, rfl⟩

end Server

end LatLng.Webhook
