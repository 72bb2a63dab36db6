import LatLng.Core.Growth
import LatLng.Core.Sample
import LatLng.Lib.Schedule
import LatLng.Replication.Follow

/-! A replication stream of a leader. Calls of `next` read the log and, if it holds nothing new,
wait to be notified; the callers that append to the log notify later, and not all of them do.
`notify_waiters` reaches the calls that have already registered, and no others. -/

namespace LatLng.Replication

open LatLng.Core Storage LatLng.Lib List Stream

/-! ### Who notifies -/

inductive Caller where
  | http
  | capnp
  | sweep
  | outbox
deriving DecidableEq, Repr

/-- The handlers of these requests notify whatever the answer is; the others only if it is true. -/
def Request.alwaysNotifies : Request → Bool
  | .expire _ _ _ => true
  | .persist _ _ => true
  | .jset _ _ _ _ _ => true
  | .rename _ _ => true
  | .setchan _ _ => true
  | .sethook _ _ _ => true
  | _ => false

/-- FLUSHDB notifies in its coordinator and in the handler. -/
def notifications : Call → Nat
  | .flushdb => 2
  | _ => 1

variable (lib : Lib)

def Caller.notifies (db : Db) (ctx : Ctx) (call : Call) : Caller → Bool
  | .http =>
    match call with
    | .request request =>
      match (db.perform lib ctx request).1 with
      | .error _ => false
      | .ok (.bool true) => true
      | .ok _ => Request.alwaysNotifies request
    | .pdel collection pattern =>
      match (db.pdel lib ctx collection pattern).1 with
      | .error _ => false
      | .ok deleted => 0 < deleted
    | .flushdb => (db.call lib ctx call).1.isOk
    | .aofshrink => (db.call lib ctx call).1.isOk
    | .rewriteLogSnapshot _ => (db.call lib ctx call).1.isOk
    | _ => false
  | .capnp =>
    match call with
    | .request _ => (db.call lib ctx call).1.isOk
    | .pdel _ _ => (db.call lib ctx call).1.isOk
    | .flushdb => (db.call lib ctx call).1.isOk
    | .aofshrink => (db.call lib ctx call).1.isOk
    | _ => false
  | .sweep =>
    match call with
    | .expireDue nowMs max =>
      match (db.expireDue lib ctx nowMs max).1 with
      | .error _ => false
      | .ok expired => 0 < expired
    | _ => false
  | .outbox => false

/-! ### The stream -/

inductive Phase where
  | idle
  | started
  | reading (after : Nat)
  | fetched (entries : List StorageEntry)
  | waiting
  | woken
deriving DecidableEq

structure Stream where
  db : Db
  afterSequence : Nat
  batchSize : Nat
  calls : Nat → Phase := fun _ => .idle
  pending : Nat := 0
  returned : List StorageEntry := []

inductive StreamEvent where
  | call (caller : Caller) (ctx : Ctx) (call : Call)
  | notify
  | begin (i : Nat)
  | load (i : Nat)
  | read (i : Nat)
  | settle (i : Nat)
  | resume (i : Nat)

def Phase.wake : Phase → Phase
  | .waiting => .woken
  | phase => phase

theorem Phase.eq_of_wake {phase phase' : Phase} (h : phase.wake = phase') (hne : phase' ≠ .woken) :
    phase = phase' := by
  cases phase with
  | waiting => exact absurd h.symm hne
  | _ => exact h

def Phase.missed : Phase → Prop
  | .fetched entries => entries = []
  | .waiting => True
  | _ => False

namespace Stream

def enter (s : Stream) (i : Nat) (phase : Phase) : Stream :=
  { s with calls := Function.update s.calls i phase }

def step (event : StreamEvent) (s : Stream) : Option Stream :=
  match event with
  | .call caller ctx call => some
    { s with
      db := (s.db.call lib ctx call).2
      pending := s.pending + if caller.notifies lib s.db ctx call then notifications call else 0 }
  | .notify =>
    if s.pending = 0 then none
    else some { s with pending := s.pending - 1, calls := fun i => (s.calls i).wake }
  | .begin i => if s.calls i = .idle then some (s.enter i .started) else none
  | .load i => if s.calls i = .started then some (s.enter i (.reading s.afterSequence)) else none
  | .read i =>
    match s.calls i with
    | .reading after =>
      match s.db.storageEntriesAfter after s.batchSize with
      | (.error _, db) => some ({ s with db }.enter i .idle)
      | (.ok entries, db) => some ({ s with db }.enter i (.fetched entries))
    | _ => none
  | .settle i =>
    match s.calls i with
    | .fetched entries =>
      match entries.getLast? with
      | none => some (s.enter i .waiting)
      | some last => some
        ({ s with afterSequence := last.sequence, returned := s.returned ++ entries }.enter i .idle)
    | _ => none
  | .resume i => if s.calls i = .woken then some (s.enter i .started) else none

def ahead (s : Stream) : List StorageEntry :=
  s.db.storage.entries.filter fun entry => s.afterSequence < entry.sequence

def Watched (s : Stream) : Prop :=
  ∀ i, s.calls i = .waiting → s.ahead ≠ [] → 0 < s.pending

structure Delivered (start : Nat) (s : Stream) : Prop where
  exact_ : s.db.storage.entries.filter (fun entry => start < entry.sequence) =
    s.returned ++ s.ahead
  ordered : Increasing s.returned

/-- One call at a time; a caller that leaves something for a call that has found nothing
notifies, and not before the call has registered, unless another notification is to come. -/
def Orderly (event : StreamEvent) (s : Stream) : Prop :=
  match event with
  | .call caller ctx call =>
    (∃ i, (s.calls i).missed) → { s with db := (s.db.call lib ctx call).2 }.ahead ≠ [] →
      caller.notifies lib s.db ctx call = true ∨ 0 < s.pending
  | .notify => (∃ i, s.calls i = .fetched []) → s.ahead ≠ [] → 1 < s.pending
  | .begin _ => ∀ j, s.calls j = .idle
  | _ => True

end Stream

def rewritesLog : Call → Bool
  | .flushdb => true
  | .aofshrink => true
  | .rewriteLogSnapshot _ => true
  | .resetReplicationState => true
  | _ => false

def StreamEvent.keepsLog : StreamEvent → Bool
  | .call _ _ c => !rewritesLog c
  | _ => true

variable {lib}

/-! ### The log -/

theorem entries_storageEntriesAfter (db : Db) (after size : Nat) :
    (db.storageEntriesAfter after size).2.storage.entries = db.storage.entries := by
  rw [Db.storageEntriesAfter]
  dsimp only
  rw [LogStore.snd_read]
  exact db.storage.sameLog_fault.entries

theorem call_appends {db : Db} {call : Call} (h : rewritesLog call = false) (ctx : Ctx) :
    ∃ added, (db.call lib ctx call).2.storage.entries = db.storage.entries ++ added ∧
      (Increasing db.storage.entries → Increasing (db.storage.entries ++ added)) := by
  have hgrows : ∀ {db' : Db}, db.Grows lib db' → ∃ added,
      db'.storage.entries = db.storage.entries ++ added ∧
        (Increasing db.storage.entries → Increasing (db.storage.entries ++ added)) := by
    rintro db' ⟨-, -, added, hlog, hinc, -⟩
    exact ⟨added, hlog, fun hs => hlog ▸ hinc hs⟩
  have hsame : ∀ {db' : Db}, db'.storage.entries = db.storage.entries → ∃ added,
      db'.storage.entries = db.storage.entries ++ added ∧
        (Increasing db.storage.entries → Increasing (db.storage.entries ++ added)) := by
    intro db' hlog
    exact ⟨[], by rw [hlog, append_nil], fun hs => by rwa [append_nil]⟩
  cases call with
  | request request => exact hgrows (Db.Grows.call rfl ctx)
  | pdel collection pattern => exact hgrows (@Db.Grows.call lib db (.pdel _ _) rfl ctx)
  | expireDue nowMs max => exact hgrows (@Db.Grows.call lib db (.expireDue _ _) rfl ctx)
  | appendLogRecords records =>
    have hcases := db.persist_cases lib ctx (.records records)
    rcases hcases with ⟨-, -, hun⟩ | ⟨-, -, hun⟩ | ⟨-, -, entries, hlogged, -⟩
    · exact hsame hun.log.entries
    · exact hsame hun.log.entries
    · exact ⟨entries, hlogged.log, fun hs =>
        (increasing_append_iff hs).2 ⟨hlogged.increasing, hlogged.after⟩⟩
  | applyReplicatedEntries entries =>
    show ∃ added, (db.applyReplicatedEntries lib ctx entries).2.storage.entries = _ ∧ _
    rcases db.applyReplicatedEntries_cases lib ctx entries with
      ⟨-, hr⟩ | ⟨-, e, storage, hstorage, -, hr⟩ | ⟨-, -, storage, hlog, -, hfits, hr⟩
    · rw [hr]
      exact hsame rfl
    · have hlog := congrArg LogStore.entries hstorage
      rw [hr]
      exact hsame hlog
    · rw [hr, Db.storage_appliedBatch]
      exact ⟨entries, hlog, fun hs => (increasing_append_iff hs).2 hfits⟩
  | readLog => exact hsame db.storage.sameLog_fault.entries
  | gc => exact hsame rfl
  | setConfig config => exact hsame rfl
  | closeStorage => exact hsame rfl
  | query => exact hsame rfl
  | flushdb => cases h
  | aofshrink => cases h
  | rewriteLogSnapshot records => cases h
  | resetReplicationState => cases h

/-! ### Notifications -/

namespace Stream

variable {s : Stream}

def Only (s : Stream) (i : Nat) : Prop := ∀ j, j ≠ i → s.calls j = .idle

structure Inv (s : Stream) : Prop where
  single : ∀ i, s.calls i ≠ .idle → s.Only i
  reading : ∀ i after, s.calls i = .reading after → after = s.afterSequence
  missed : ∀ i, (s.calls i).missed → s.ahead ≠ [] → 0 < s.pending

theorem Inv.enter {i : Nat} {phase : Phase} (honly : s.Only i)
    (hreading : ∀ after, phase = .reading after → after = s.afterSequence)
    (hmissed : phase.missed → s.ahead ≠ [] → 0 < s.pending) : (s.enter i phase).Inv := by
  have hself : (s.enter i phase).calls i = phase := Function.update_self ..
  have hother : ∀ j, j ≠ i → (s.enter i phase).calls j = .idle := by
    intro j hj
    rw [Stream.enter]
    dsimp only
    rw [Function.update_of_ne hj]
    exact honly j hj
  refine ⟨?_, ?_, ?_⟩
  · intro j hj k hk
    by_cases hji : j = i
    · subst hji
      exact hother k hk
    · exact absurd (hother j hji) hj
  · intro j after hj
    by_cases hji : j = i
    · subst hji
      exact hreading after (hself.symm.trans hj)
    · rw [hother j hji] at hj
      cases hj
  · intro j hj
    by_cases hji : j = i
    · subst hji
      rw [hself] at hj
      exact hmissed hj
    · rw [hother j hji] at hj
      cases hj

theorem read_step {i after : Nat} (hcall : s.calls i = .reading after) {s' : Stream}
    (hstep : s.step lib (.read i) = some s') :
    ∃ db phase, s' = { s with db }.enter i phase ∧ db.storage.entries = s.db.storage.entries ∧
      (phase = .idle ∨ phase = .fetched ((s.db.storage.entries.filter
        fun entry => after < entry.sequence).take (max s.batchSize 1))) := by
  rw [step, hcall] at hstep
  dsimp only at hstep
  have hlog := entries_storageEntriesAfter s.db after s.batchSize
  rcases hread : s.db.storageEntriesAfter after s.batchSize with ⟨e | entries, db⟩
  · rw [hread] at hstep hlog
    cases hstep
    exact ⟨db, .idle, rfl, hlog, .inl rfl⟩
  · have hentries := storageEntriesAfter_ok (congrArg Prod.fst hread)
    rw [hread] at hstep hlog
    cases hstep
    exact ⟨db, .fetched entries, rfl, hlog, .inr (by rw [hentries])⟩

theorem Inv.step {event : StreamEvent} {s' : Stream} (h : s.Inv) (horderly : s.Orderly lib event)
    (hstep : s.step lib event = some s') : s'.Inv := by
  cases event with
  | call caller ctx call =>
    cases hstep
    refine ⟨h.single, h.reading, fun i hi hahead => ?_⟩
    rcases horderly ⟨i, hi⟩ hahead with hnotifies | hpending
    · rw [if_pos hnotifies]
      exact Nat.add_pos_right _ (by cases call <;> exact Nat.succ_pos _)
    · exact Nat.add_pos_left hpending _
  | notify =>
    rw [Stream.step] at hstep
    split at hstep
    · cases hstep
    cases hstep
    refine ⟨fun i hi j hj => ?_, fun i after hi => ?_, fun i hi hahead => ?_⟩
    · have hbusy : s.calls i ≠ .idle := by
        intro hidle
        dsimp only at hi
        rw [hidle] at hi
        exact hi rfl
      show (s.calls j).wake = .idle
      rw [h.single i hbusy j hj]
      rfl
    · exact h.reading i after (Phase.eq_of_wake hi nofun)
    · -- a call that has not registered yet misses this notification
      have hmissed : (s.calls i).missed ∧ s.calls i = .fetched [] := by
        dsimp only at hi
        cases hphase : s.calls i with
        | fetched entries =>
          rw [hphase] at hi
          have hnil : entries = [] := hi
          rw [hnil]
          exact ⟨rfl, rfl⟩
        | _ =>
          rw [hphase] at hi
          exact hi.elim
      have hmore := horderly ⟨i, hmissed.2⟩ hahead
      exact Nat.sub_pos_of_lt hmore
  | begin i =>
    rw [Stream.step] at hstep
    split at hstep
    · cases hstep
      exact Inv.enter (fun j _ => horderly j) (nofun) (nofun)
    · cases hstep
  | load i =>
    rw [Stream.step] at hstep
    split at hstep
    next hcall =>
      cases hstep
      have honly := h.single i (by rw [hcall]; exact nofun)
      exact Inv.enter honly (fun after hp => by cases hp; rfl) (nofun)
    · cases hstep
  | read i =>
    cases hcall : s.calls i with
    | reading after =>
      obtain ⟨db, phase, rfl, hlog, hphase⟩ := read_step hcall hstep
      have honly : { s with db }.Only i := h.single i (by rw [hcall]; exact nofun)
      have hafter := h.reading i after hcall
      refine Inv.enter honly (fun after' hp => ?_) fun hmissed hahead => ?_
      · rcases hphase with rfl | rfl <;> cases hp
      · rcases hphase with rfl | rfl
        · cases hmissed
        · -- nothing was found because there is nothing
          have hnone : (s.db.storage.entries.filter fun entry => after < entry.sequence).take
              (max s.batchSize 1) = [] := hmissed
          have hempty : { s with db }.ahead = [] := by
            rw [ahead, hlog, ← hafter]
            rcases take_eq_nil_iff.1 hnone with hzero | hnil
            · omega
            · exact hnil
          exact absurd hempty hahead
    | _ =>
      rw [Stream.step, hcall] at hstep
      cases hstep
  | settle i =>
    cases hcall : s.calls i with
    | fetched entries =>
      have honly := h.single i (by rw [hcall]; exact nofun)
      rw [Stream.step, hcall] at hstep
      dsimp only at hstep
      cases hlast : entries.getLast? with
      | none =>
        rw [hlast] at hstep
        cases hstep
        have hnil := getLast?_eq_none_iff.1 hlast
        refine Inv.enter honly (nofun) fun _ hahead => h.missed i ?_ hahead
        rw [hcall]
        exact hnil
      | some last =>
        rw [hlast] at hstep
        cases hstep
        exact Inv.enter honly (nofun) (nofun)
    | _ =>
      rw [Stream.step, hcall] at hstep
      cases hstep
  | resume i =>
    rw [Stream.step] at hstep
    split at hstep
    next hcall =>
      cases hstep
      have honly := h.single i (by rw [hcall]; exact nofun)
      exact Inv.enter honly (nofun) (nofun)
    · cases hstep

/-! ### What is returned -/

structure Kept (start : Nat) (s : Stream) : Prop where
  log : Increasing s.db.storage.entries
  exact_ : s.db.storage.entries.filter (fun entry => start < entry.sequence) =
    s.returned ++ s.ahead
  fetched : ∀ i entries, s.calls i = .fetched entries → entries <+: s.ahead
  cursor : s.afterSequence = start ∨ start < s.afterSequence ∧
    ∃ entry ∈ s.db.storage.entries, entry.sequence = s.afterSequence

namespace Kept

variable {start : Nat} (h : s.Kept start)

include h

theorem delivered : s.Delivered start := by
  refine ⟨h.exact_, ?_⟩
  have hfilter : Increasing (s.db.storage.entries.filter fun entry => start < entry.sequence) :=
    h.log.filter _
  rw [h.exact_] at hfilter
  exact hfilter.of_append_left

theorem enter (i : Nat) {phase : Phase}
    (hphase : ∀ entries, phase = .fetched entries → entries <+: s.ahead) :
    (s.enter i phase).Kept start := by
  refine ⟨h.log, h.exact_, fun j entries hj => ?_, h.cursor⟩
  by_cases hji : j = i
  · subst hji
    exact hphase entries ((Function.update_self ..).symm.trans hj)
  · exact h.fetched j entries ((Function.update_of_ne hji ..).symm.trans hj)

theorem of_log {db : Db} (hlog : db.storage.entries = s.db.storage.entries) :
    { s with db }.Kept start := by
  have hahead : { s with db }.ahead = s.ahead := by
    rw [ahead, hlog, ahead]
  refine ⟨?_, ?_, ?_, ?_⟩
  · rw [hlog]
    exact h.log
  · rw [hlog, hahead]
    exact h.exact_
  · rw [hahead]
    exact h.fetched
  · rw [hlog]
    exact h.cursor

theorem append {db : Db} {pending : Nat} {added : List StorageEntry}
    (hlog : db.storage.entries = s.db.storage.entries ++ added)
    (hinc : Increasing (s.db.storage.entries ++ added)) : { s with db, pending }.Kept start := by
  have hbehind : ∀ old ∈ s.db.storage.entries, ∀ new ∈ added, old.sequence < new.sequence :=
    (pairwise_append.1 hinc).2.2
  -- new entries are behind the cursor, unless nothing has been returned yet
  have hnew : added.filter (fun entry => start < entry.sequence) =
      added.filter fun entry => s.afterSequence < entry.sequence := by
    rcases h.cursor with hstart | ⟨hlt, last, hmem, hlast⟩
    · rw [hstart]
    · refine filter_congr fun new hnew => ?_
      have hnext := hbehind last hmem new hnew
      rw [decide_eq_decide]
      omega
  have hahead : { s with db, pending }.ahead =
      s.ahead ++ added.filter fun entry => start < entry.sequence := by
    rw [ahead, hlog, filter_append, hnew, ahead]
  refine ⟨?_, ?_, ?_, ?_⟩
  · rw [hlog]
    exact hinc
  · rw [hlog, filter_append, h.exact_, hahead, append_assoc]
  · intro i entries hi
    rw [hahead]
    exact (h.fetched i entries hi).trans (prefix_append _ _)
  · rw [hlog]
    refine h.cursor.imp_right fun ⟨hlt, last, hmem, hlast⟩ => ⟨hlt, last, ?_, hlast⟩
    exact mem_append_left _ hmem

theorem settle {i : Nat} {entries : List StorageEntry} {last : StorageEntry}
    (honly : s.Only i) (hcall : s.calls i = .fetched entries) (hlast : entries.getLast? = some last) :
    ({ s with afterSequence := last.sequence, returned := s.returned ++ entries }.enter i
      .idle).Kept start := by
  obtain ⟨rest, hrest⟩ := h.fetched i entries hcall
  have hmem : last ∈ s.ahead := by
    rw [← hrest]
    exact mem_append_left _ (mem_of_getLast? hlast)
  obtain ⟨hstored, hbehind⟩ := mem_filter.1 hmem
  have hlt : s.afterSequence < last.sequence := of_decide_eq_true hbehind
  have hnext : (s.db.storage.entries.filter fun entry => last.sequence < entry.sequence) = rest := by
    have hne : entries ≠ [] := by
      rintro rfl
      cases hlast
    have hinc : Increasing (entries ++ rest) := by
      rw [hrest]
      exact h.log.filter _
    rw [← (hinc.filter_lastSequence hne).2, hrest, lastSequence_of_getLast? hlast, ahead,
      filter_filter]
    refine filter_congr fun entry _ => ?_
    rw [← Bool.decide_and, decide_eq_decide]
    omega
  refine ⟨h.log, ?_, ?_, .inr ⟨?_, last, hstored, rfl⟩⟩
  · show s.db.storage.entries.filter _ = (s.returned ++ entries) ++
      s.db.storage.entries.filter fun entry => last.sequence < entry.sequence
    rw [hnext, append_assoc, hrest, h.exact_]
  · intro j later hj
    by_cases hji : j = i
    · subst hji
      rw [Stream.enter] at hj
      dsimp only at hj
      rw [Function.update_self] at hj
      cases hj
    · have hidle := honly j hji
      rw [Stream.enter] at hj
      dsimp only at hj
      rw [Function.update_of_ne hji, hidle] at hj
      cases hj
  · rcases h.cursor with hstart | ⟨hpassed, -⟩
    · rwa [hstart] at hlt
    · exact hpassed.trans hlt

theorem step {event : StreamEvent} {s' : Stream} (hinv : s.Inv)
    (hkeeps : event.keepsLog) (hstep : s.step lib event = some s') : s'.Kept start := by
  have hother : ∀ {i : Nat} {phase : Phase}, (∀ entries, phase ≠ .fetched entries) →
      (s.enter i phase).Kept start :=
    fun hphase => h.enter _ fun entries hp => absurd hp (hphase entries)
  cases event with
  | call caller ctx call =>
    cases hstep
    have hrewrites : rewritesLog call = false := by simpa [StreamEvent.keepsLog] using hkeeps
    obtain ⟨added, hlog, hinc⟩ := @call_appends lib s.db call hrewrites ctx
    exact h.append hlog (hinc h.log)
  | notify =>
    rw [Stream.step] at hstep
    split at hstep
    · cases hstep
    cases hstep
    refine ⟨h.log, h.exact_, fun i entries hi => h.fetched i entries ?_, h.cursor⟩
    exact Phase.eq_of_wake hi nofun
  | begin i | load i | resume i =>
    rw [Stream.step] at hstep
    split at hstep
    · cases hstep
      exact hother nofun
    · cases hstep
  | read i =>
    cases hcall : s.calls i with
    | reading after =>
      obtain ⟨db, phase, rfl, hlog, hphase⟩ := read_step hcall hstep
      have hafter := hinv.reading i after hcall
      refine (h.of_log hlog).enter i fun entries hp => ?_
      rcases hphase with rfl | rfl
      · cases hp
      · cases hp
        rw [ahead, hlog, hafter]
        exact take_prefix _ _
    | _ =>
      rw [Stream.step, hcall] at hstep
      cases hstep
  | settle i =>
    cases hcall : s.calls i with
    | fetched entries =>
      have honly := hinv.single i (by rw [hcall]; exact nofun)
      rw [Stream.step, hcall] at hstep
      dsimp only at hstep
      cases hlast : entries.getLast? with
      | none =>
        rw [hlast] at hstep
        cases hstep
        exact hother nofun
      | some last =>
        rw [hlast] at hstep
        cases hstep
        exact h.settle honly hcall hlast
    | _ =>
      rw [Stream.step, hcall] at hstep
      cases hstep

end Kept

end Stream

/-- A stream that starts behind any sequence number, under every orderly schedule. -/
theorem stream_misses_nothing {db : Db} (hlog : Increasing db.storage.entries)
    (start batchSize : Nat) {schedule : List StreamEvent} {s : Stream}
    (hmeet : StepsMeet (Stream.step lib) (Stream.Orderly lib) schedule
      { db, afterSequence := start, batchSize })
    (hrun : runSteps (Stream.step lib) schedule { db, afterSequence := start, batchSize } = some s) :
    s.Watched ∧ ((∀ event ∈ schedule, event.keepsLog = true) → s.Delivered start) := by
  have hinv₀ : ({ db, afterSequence := start, batchSize } : Stream).Inv :=
    ⟨fun _ hi => absurd rfl hi, nofun, nofun⟩
  constructor
  · have hinv : s.Inv := runSteps_invariant (fun _ _ _ h horderly hstep => h.step horderly hstep)
      hinv₀ hmeet hrun
    intro i hi
    exact hinv.missed i (by rw [hi]; trivial)
  · intro hkeeps
    have hkept₀ : ({ db, afterSequence := start, batchSize } : Stream).Kept start :=
      ⟨hlog, rfl, nofun, .inl rfl⟩
    have hstep : ∀ event (s s' : Stream), s.Inv ∧ s.Kept start →
        event ∈ schedule ∧ s.Orderly lib event → s.step lib event = some s' →
        s'.Inv ∧ s'.Kept start :=
      fun event _ _ h hcond hstep => ⟨h.1.step hcond.2 hstep,
        h.2.step h.1 (hkeeps event hcond.1) hstep⟩
    exact (runSteps_invariant hstep ⟨hinv₀, hkept₀⟩ (hmeet.mem fun _ he => he) hrun).2.delivered

namespace Wakeup

open Sample

def quiet : Stream where
  db := { storage := {} }
  afterSequence := 0
  batchSize := 16

def set : StreamEvent := .call .capnp sampleCtx (.request (setIdle "fleet" "truck"))

def ack : StreamEvent := .call .outbox sampleCtx (.appendLogRecords [.webhookAck "job"])

/-- The notification comes between the read and the registration; and the outcome of a webhook is
appended without one. -/
theorem waiting_call_misses_entry :
    (∃ s, runSteps (Stream.step blankLib)
      [.begin 0, .load 0, .read 0, set, .notify, .settle 0] quiet = some s ∧ ¬ s.Watched) ∧
    ∃ s, runSteps (Stream.step blankLib)
      [.begin 0, .load 0, .read 0, .settle 0, ack] quiet = some s ∧ ¬ s.Watched := by
  refine ⟨⟨_, rfl, fun h => ?_⟩, ⟨_, rfl, fun h => ?_⟩⟩
  · exact absurd (h 0 rfl (by decide)) (by decide)
  · exact absurd (h 0 rfl (by decide)) (by decide)

/-- The call waits, is notified, and returns the entry. -/
theorem waiting_call_returns_entry : ∃ s,
    runSteps (Stream.step blankLib) [.begin 0, .load 0, .read 0, .settle 0, set, .notify,
      .resume 0, .load 0, .read 0, .settle 0] quiet = some s ∧
    s.returned.map StorageEntry.sequence = [1] ∧ s.Watched ∧ s.Delivered 0 := by
  have hmeet : StepsMeet (Stream.step blankLib) (Stream.Orderly blankLib)
      [.begin 0, .load 0, .read 0, .settle 0, set, .notify, .resume 0, .load 0, .read 0, .settle 0]
      quiet := by
    refine .cons (fun _ => rfl) rfl (.cons trivial rfl (.cons trivial rfl (.cons trivial rfl
      (.cons (fun _ _ => .inl rfl) rfl (.cons ?_ rfl (.cons trivial rfl (.cons trivial rfl
        (.cons trivial rfl (.cons trivial rfl trivial)))))))))
    rintro ⟨_ | i, hi⟩ <;> cases hi
  obtain ⟨hwatched, hdelivered⟩ := stream_misses_nothing increasing_nil 0 16 hmeet rfl
  exact ⟨_, rfl, rfl, hwatched, hdelivered (by decide)⟩

end Wakeup

end LatLng.Replication
