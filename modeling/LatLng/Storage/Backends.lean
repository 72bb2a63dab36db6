import LatLng.Aof.GroupCommit
import LatLng.Lib.Schedule
import LatLng.Lib.Except

/-! The three backends under the same calls. The in-memory and the file backend compare an entry
with the last one; the SQLite backend leaves single entries and snapshots to the primary key. -/

namespace LatLng.Storage

open Lib Aof List

inductive StorageCall where
  | append (entry : StorageEntry)
  | appendBatch (entries : List StorageEntry)
  | snapshot (entries : List StorageEntry)
  | compact
  | replay (afterSeq : Nat)

inductive Reply where
  | rejected
  | done
  | replayed (entries : List StorageEntry) (last : Nat)
deriving DecidableEq

def Reply.ofResult {α : Type} : Except StorageError α → Reply
  | .error _ => .rejected
  | .ok _ => .done

def collected (entries : List StorageEntry) (afterSeq : Nat) :
    Except StorageError (List StorageEntry × Nat) :=
  replayEntries entries afterSeq (fun seen entry => .ok (seen ++ [entry])) []

def Reply.ofReplay : Except StorageError (List StorageEntry × Nat) → Reply
  | .error _ => .rejected
  | .ok (entries, last) => .replayed entries last

/-! ### In memory -/

structure MemoryBackend where
  entries : List StorageEntry := []
  closed : Bool := false

namespace MemoryBackend

variable (b : MemoryBackend)

def ensureOpen : Except StorageError Unit := if b.closed then .error .closed else .ok ()

def append (entry : StorageEntry) : Except StorageError MemoryBackend := do
  b.ensureOpen
  match b.entries.getLast? with
  | some last =>
    if entry.sequence ≤ last.sequence then
      .error (.sequenceRegression (last.sequence + 1) entry.sequence)
    else .ok { b with entries := b.entries ++ [entry] }
  | none => .ok { b with entries := b.entries ++ [entry] }

def appendBatch (entries : List StorageEntry) : Except StorageError MemoryBackend := do
  b.ensureOpen
  assertStrictlyIncreasing entries
  match b.entries.getLast?, entries.head? with
  | some last, some first =>
    if first.sequence ≤ last.sequence then
      .error (.sequenceRegression (last.sequence + 1) first.sequence)
    else .ok { b with entries := b.entries ++ entries }
  | _, _ => .ok { b with entries := b.entries ++ entries }

def snapshot (entries : List StorageEntry) : Except StorageError MemoryBackend := do
  b.ensureOpen
  assertStrictlyIncreasing entries
  .ok { b with entries }

def after (result : Except StorageError MemoryBackend) : Reply × MemoryBackend :=
  (Reply.ofResult result, result.toOption.getD b)

def call : StorageCall → Reply × MemoryBackend
  | .append entry => b.after (b.append entry)
  | .appendBatch entries => b.after (b.appendBatch entries)
  | .snapshot entries => b.after (b.snapshot entries)
  | .compact => (.done, b)
  | .replay afterSeq => (Reply.ofReplay (collected b.entries afterSeq), b)

end MemoryBackend

/-! ### The append-only file -/

def aofCall (deps : Deps) (b : Backend) : StorageCall → Reply × Backend
  | .append entry =>
    let (result, b) := b.call deps noFaults (.append entry)
    (Reply.ofResult result, b)
  | .appendBatch entries =>
    let (result, b) := b.call deps noFaults (.appendBatch entries)
    (Reply.ofResult result, b)
  | .snapshot entries =>
    -- checked once by the caller, and again by the writer
    match assertStrictlyIncreasing entries with
    | .error _ => (.rejected, b)
    | .ok () =>
      let (result, b) := executeSnapshot deps b entries
      (Reply.ofResult result, b)
  | .compact =>
    let (result, b) := executeCompact deps b
    (Reply.ofResult result, b)
  | .replay afterSeq => (Reply.ofReplay (collected b.replay afterSeq), b)

/-! ### SQLite -/

structure SqliteLib where
  rowFits : List UInt8 → Bool
  outOfRange : String
  tooBig : String
  uniqueFailed : String

abbrev Rows := List StorageEntry

namespace Rows

variable (sql : SqliteLib)

def Storable (entry : StorageEntry) : Bool :=
  decide (entry.sequence < 2 ^ 63) && decide (entry.timestampNs < 2 ^ 63) &&
    sql.rowFits entry.command

def place (rows : Rows) (entry : StorageEntry) : Rows :=
  rows.takeWhile (·.sequence < entry.sequence) ++
    entry :: rows.dropWhile (·.sequence < entry.sequence)

def insert (rows : Rows) (entry : StorageEntry) : Except StorageError Rows :=
  if 2 ^ 63 ≤ entry.sequence ∨ 2 ^ 63 ≤ entry.timestampNs then .error (.message sql.outOfRange)
  else if sql.rowFits entry.command = false then .error (.message sql.tooBig)
  else if rows.any (·.sequence == entry.sequence) then .error (.message sql.uniqueFailed)
  else .ok (place rows entry)

def lastSequence (rows : Rows) : Nat := rows.foldl (fun m row => max m row.sequence) 0

def insertAll (rows : Rows) (entries : List StorageEntry) : Except StorageError Rows :=
  entries.foldlM (insert sql) rows

def appendBatch (rows : Rows) (entries : List StorageEntry) : Except StorageError Rows :=
  if entries.isEmpty then .ok rows
  else do
    assertStrictlyIncreasing entries
    match entries.head? with
    | some first =>
      if 0 < lastSequence rows ∧ first.sequence ≤ lastSequence rows then
        .error (.sequenceRegression (lastSequence rows + 1) first.sequence)
      else insertAll sql rows entries
    | none => insertAll sql rows entries

def snapshot (entries : List StorageEntry) : Except StorageError Rows := insertAll sql [] entries

def replay (rows : Rows) (afterSeq : Nat) : Except StorageError (List StorageEntry × Nat) :=
  if 2 ^ 63 ≤ afterSeq then .error (.message sql.outOfRange)
  else collected (rows.filter fun row => afterSeq < row.sequence) afterSeq

def after (rows : Rows) (result : Except StorageError Rows) : Reply × Rows :=
  (Reply.ofResult result, result.toOption.getD rows)

def call (rows : Rows) : StorageCall → Reply × Rows
  | .append entry => after rows (insert sql rows entry)
  | .appendBatch entries => after rows (appendBatch sql rows entries)
  | .snapshot entries => after rows (snapshot sql entries)
  | .compact => (.done, rows)
  | .replay afterSeq => (Reply.ofReplay (replay sql rows afterSeq), rows)

end Rows

/-! ### Side by side -/

structure Trio where
  memory : MemoryBackend := {}
  aof : Backend := emptyBackend
  sqlite : Rows := []
  replies : List (Reply × Reply × Reply) := []

variable (deps : Deps) (sql : SqliteLib)

def Trio.step (call : StorageCall) (t : Trio) : Option Trio :=
  some {
    memory := (t.memory.call call).2
    aof := (aofCall deps t.aof call).2
    sqlite := (Rows.call sql t.sqlite call).2
    replies := t.replies ++ [((t.memory.call call).1, (aofCall deps t.aof call).1,
      (Rows.call sql t.sqlite call).1)] }

def Holdable (entry : StorageEntry) : Prop :=
  Rows.Storable sql entry = true ∧ ∃ payload, deps.serialize (.entry entry) = .ok payload

def Portable (log : List StorageEntry) : StorageCall → Prop
  | .append entry =>
    (After log.getLast? [entry] → Holdable deps sql entry) ∧
      (¬ After log.getLast? [entry] →
        (∃ old ∈ log, old.sequence = entry.sequence) ∨ Rows.Storable sql entry = false)
  | .appendBatch entries =>
    entries ≠ [] → Increasing entries → After log.getLast? entries →
      (∀ e ∈ entries, Holdable deps sql e) ∧
        ∃ payload, deps.serialize (.batch entries) = .ok payload
  | .snapshot entries =>
    (Increasing entries → ∀ e ∈ entries, Holdable deps sql e) ∧
      (¬ Increasing entries →
        ¬ (entries.map StorageEntry.sequence).Nodup ∨
          ∃ e ∈ entries, Rows.Storable sql e = false)
  | .compact => True
  | .replay afterSeq => afterSeq < 2 ^ 63

structure Matching (t : Trio) (log : List StorageEntry) : Prop where
  isOpen : t.memory.closed = false
  memory : t.memory.entries = log
  clean : ∃ frames, Clean deps t.aof frames
  aof : t.aof.committed.entries = log
  sqlite : t.sqlite = log
  encodable : ∀ e ∈ log, ∃ payload, deps.serialize (.entry e) = .ok payload

/-! ### What each backend takes -/

variable {last : Option StorageEntry}

theorem after_singleton_iff {e : StorageEntry} :
    After last [e] ↔ ∀ l ∈ last, l.sequence < e.sequence := by
  simp [After]

theorem after_iff_head {first : StorageEntry}
    {rest : List StorageEntry} (h : Increasing (first :: rest)) :
    After last (first :: rest) ↔ ∀ l ∈ last, l.sequence < first.sequence := by
  constructor
  · intro hafter l hl
    exact hafter l hl first mem_cons_self
  · intro hfirst l hl e he
    rcases mem_cons.1 he with rfl | he
    · exact hfirst l hl
    · exact Nat.lt_trans (hfirst l hl) ((pairwise_cons.1 h).1 e he)

namespace MemoryBackend

variable {b : MemoryBackend} (hopen : b.closed = false)

include hopen

theorem ensureOpen_ok : b.ensureOpen = .ok () := by
  rw [ensureOpen, hopen]
  rfl

theorem append_accepted {e : StorageEntry} (h : After b.entries.getLast? [e]) :
    b.append e = .ok { b with entries := b.entries ++ [e] } := by
  rw [append, ensureOpen_ok hopen]
  cases hlast : b.entries.getLast? with
  | none => rfl
  | some last =>
    rw [hlast] at h
    have hlt := after_singleton_iff.1 h last rfl
    simp [bind, Except.bind, Nat.not_le.2 hlt]

theorem append_rejected {e : StorageEntry} (h : ¬ After b.entries.getLast? [e]) :
    ∃ error, b.append e = .error error := by
  rw [append, ensureOpen_ok hopen]
  cases hlast : b.entries.getLast? with
  | none =>
    rw [hlast] at h
    exact absurd nofun h
  | some last =>
    rw [hlast, after_singleton_iff] at h
    have hle : e.sequence ≤ last.sequence := by
      by_contra hlt
      exact h fun l hl => by
        cases hl
        omega
    simp [bind, Except.bind, hle]

theorem appendBatch_eq (entries : List StorageEntry) :
    b.appendBatch entries = (validateBatchAgainstLast b.entries.getLast? entries).map fun _ =>
      { b with entries := b.entries ++ entries } := by
  unfold appendBatch validateBatchAgainstLast
  rw [ensureOpen_ok hopen]
  cases entries with
  | nil => cases hlast : b.entries.getLast? <;> rfl
  | cons first rest =>
    simp only [isEmpty_cons, Bool.false_eq_true, if_false, head?_cons, bind, Except.bind]
    cases assertStrictlyIncreasing (first :: rest) with
    | error e => rfl
    | ok u =>
      cases hlast : b.entries.getLast? with
      | none => rfl
      | some last =>
        by_cases hle : first.sequence ≤ last.sequence
        · simp only [hle, if_true]
          rfl
        · simp only [hle, if_false]
          rfl

theorem snapshot_eq (entries : List StorageEntry) :
    b.snapshot entries = (assertStrictlyIncreasing entries).map fun _ => { b with entries } := by
  rw [snapshot, ensureOpen_ok hopen]
  cases assertStrictlyIncreasing entries <;> rfl

end MemoryBackend

namespace Rows

variable {sql} {rows : Rows} {e : StorageEntry}

theorem mem_place {row : StorageEntry} : row ∈ place rows e ↔ row = e ∨ row ∈ rows := by
  unfold place
  rw [mem_append, mem_cons]
  have hsplit := takeWhile_append_dropWhile (p := fun r : StorageEntry =>
    decide (r.sequence < e.sequence)) (l := rows)
  constructor
  · rintro (h | h | h)
    · exact .inr (hsplit ▸ mem_append_left _ h)
    · exact .inl h
    · exact .inr (hsplit ▸ mem_append_right _ h)
  · rintro (h | h)
    · exact .inr (.inl h)
    · rw [← hsplit] at h
      rcases mem_append.1 h with h | h
      · exact .inl h
      · exact .inr (.inr h)

theorem insert_ok_iff {rows' : Rows} :
    insert sql rows e = .ok rows' ↔
      Storable sql e ∧ (∀ row ∈ rows, row.sequence ≠ e.sequence) ∧
        rows' = place rows e := by
  unfold insert Storable
  by_cases hwide : 2 ^ 63 ≤ e.sequence ∨ 2 ^ 63 ≤ e.timestampNs
  · rw [if_pos hwide]
    refine iff_of_false nofun ?_
    rintro ⟨h, -⟩
    simp only [Bool.and_eq_true, decide_eq_true_eq] at h
    omega
  · rw [if_neg hwide]
    have hseq : e.sequence < 2 ^ 63 := by omega
    have htime : e.timestampNs < 2 ^ 63 := by omega
    cases hfits : sql.rowFits e.command with
    | false => simp
    | true =>
      by_cases hany : rows.any (·.sequence == e.sequence) = true
      · simp only [hany, if_true, Bool.true_eq_false, if_false]
        refine iff_of_false nofun ?_
        rintro ⟨-, hnone, -⟩
        obtain ⟨row, hrow, heq⟩ := any_eq_true.1 hany
        exact hnone row hrow (by simpa using heq)
      · have hnone : ∀ row ∈ rows, row.sequence ≠ e.sequence := by
          intro row hrow heq
          exact hany (any_eq_true.2 ⟨row, hrow, by simpa using heq⟩)
        simp only [hany, Bool.true_eq_false, Bool.false_eq_true, if_false, Except.ok.injEq, hseq,
          htime, decide_true, Bool.and_self, true_and]
        exact ⟨fun h => ⟨hnone, h.symm⟩, fun h => h.2.symm⟩

theorem insert_rejected (h : (∃ row ∈ rows, row.sequence = e.sequence) ∨ Storable sql e = false) :
    ∃ error, insert sql rows e = .error error := by
  cases hinsert : insert sql rows e with
  | error error => exact ⟨error, rfl⟩
  | ok rows' =>
    obtain ⟨hstorable, hnone, -⟩ := insert_ok_iff.1 hinsert
    rcases h with ⟨row, hrow, heq⟩ | hnot
    · exact absurd heq (hnone row hrow)
    · rw [hstorable] at hnot
      cases hnot

theorem insert_last (hstorable : Storable sql e)
    (hlast : ∀ row ∈ rows, row.sequence < e.sequence) : insert sql rows e = .ok (rows ++ [e]) := by
  refine insert_ok_iff.2 ⟨hstorable, fun row hrow => Nat.ne_of_lt (hlast row hrow), ?_⟩
  have hall : ∀ row ∈ rows, decide (row.sequence < e.sequence) = true := by simpa using hlast
  unfold place
  rw [takeWhile_eq_self_iff.2 hall, dropWhile_eq_nil_iff.2 hall]

variable {entries : List StorageEntry}

theorem insertAll_last (hinc : Increasing (rows ++ entries))
    (hstorable : ∀ e ∈ entries, Storable sql e = true) :
    insertAll sql rows entries = .ok (rows ++ entries) := by
  induction entries generalizing rows with
  | nil => simp [insertAll, pure, Except.pure]
  | cons e entries ih =>
    have hlt : ∀ row ∈ rows, row.sequence < e.sequence := fun row hrow =>
      (pairwise_append.1 hinc).2.2 row hrow e mem_cons_self
    have hrest : rows ++ e :: entries = (rows ++ [e]) ++ entries := by simp
    have hinsert := insert_last (hstorable e mem_cons_self) hlt
    rw [hrest] at hinc ⊢
    rw [insertAll, foldlM_cons, hinsert]
    exact ih hinc fun x hx => hstorable x (mem_cons_of_mem e hx)

theorem insertAll_ok {rows' : Rows} (h : insertAll sql rows entries = .ok rows') :
    (∀ e ∈ entries, Storable sql e ∧ ∀ row ∈ rows, row.sequence ≠ e.sequence) ∧
      (entries.map StorageEntry.sequence).Nodup := by
  induction entries generalizing rows with
  | nil => exact ⟨nofun, nodup_nil⟩
  | cons e entries ih =>
    rw [insertAll, foldlM_cons] at h
    obtain ⟨placed, hinsert, h⟩ := bind_eq_ok.1 h
    obtain ⟨hstorable, hnone, rfl⟩ := insert_ok_iff.1 hinsert
    obtain ⟨hentries, hnodup⟩ := ih h
    refine ⟨?_, ?_⟩
    · intro x hx
      rcases mem_cons.1 hx with rfl | hx
      · exact ⟨hstorable, hnone⟩
      · exact ⟨(hentries x hx).1, fun row hrow =>
          (hentries x hx).2 row (mem_place.2 (.inr hrow))⟩
    · rw [map_cons, nodup_cons]
      refine ⟨?_, hnodup⟩
      intro hmem
      obtain ⟨x, hx, heq⟩ := mem_map.1 hmem
      exact (hentries x hx).2 e (mem_place.2 (.inl rfl)) heq.symm

theorem foldl_max_le {m n : Nat} (hm : m ≤ n) (h : ∀ row ∈ rows, row.sequence ≤ n) :
    rows.foldl (fun m row => max m row.sequence) m ≤ n := by
  induction rows generalizing m with
  | nil => exact hm
  | cons row rows ih =>
    obtain ⟨hrow, hrows⟩ := forall_mem_cons.1 h
    exact ih (Nat.max_le.2 ⟨hm, hrow⟩) hrows

theorem lastSequence_eq (h : Increasing rows) : lastSequence rows = Storage.lastSequence rows := by
  unfold lastSequence
  rcases eq_nil_or_concat rows with rfl | ⟨pre, l, rfl⟩
  · rfl
  · rw [concat_eq_append] at h ⊢
    have hpre : pre.foldl (fun m row => max m row.sequence) 0 ≤ l.sequence := by
      refine foldl_max_le (Nat.zero_le _) fun row hrow => Nat.le_of_lt ?_
      exact (pairwise_append.1 h).2.2 row hrow l mem_cons_self
    rw [foldl_append, lastSequence_append (cons_ne_nil l [])]
    exact Nat.max_eq_right hpre

theorem appendBatch_rejected (hrows : Increasing rows)
    (h : ¬ (Increasing entries ∧ After rows.getLast? entries)) :
    ∃ error, appendBatch sql rows entries = .error error := by
  cases entries with
  | nil => exact absurd ⟨increasing_nil, by simp [After]⟩ h
  | cons first rest =>
    unfold appendBatch
    simp only [isEmpty_cons, Bool.false_eq_true, if_false, head?_cons]
    cases hassert : assertStrictlyIncreasing (first :: rest) with
    | error e => exact ⟨e, rfl⟩
    | ok u =>
      have hinc := (assertStrictlyIncreasing_ok _).1 hassert
      have hbehind : ∃ l ∈ rows.getLast?, first.sequence ≤ l.sequence := by
        have hnot : ¬ After rows.getLast? (first :: rest) := fun hafter => h ⟨hinc, hafter⟩
        rw [after_iff_head hinc] at hnot
        simpa using hnot
      obtain ⟨l, hl, hle⟩ := hbehind
      have hlast : lastSequence rows = l.sequence :=
        (lastSequence_eq hrows).trans (lastSequence_of_getLast? hl)
      simp only [bind, Except.bind, hlast]
      by_cases hpos : 0 < l.sequence
      · exact ⟨_, by rw [if_pos ⟨hpos, hle⟩]⟩
      · -- both keys are zero
        rw [if_neg fun hc => hpos hc.1]
        cases hinsert : insertAll sql rows (first :: rest) with
        | error e => exact ⟨e, rfl⟩
        | ok rows' =>
          have hnone := ((insertAll_ok hinsert).1 first mem_cons_self).2 l
            (mem_of_getLast? hl)
          omega

theorem appendBatch_accepted (hrows : Increasing rows)
    (hinc : Increasing entries) (hafter : After rows.getLast? entries)
    (hstorable : ∀ e ∈ entries, Storable sql e = true) :
    appendBatch sql rows entries = .ok (rows ++ entries) := by
  cases entries with
  | nil => simp [appendBatch]
  | cons first rest =>
    have hall := insertAll_last ((increasing_append_iff hrows).2 ⟨hinc, hafter⟩) hstorable
    have hahead : ¬ (0 < lastSequence rows ∧ first.sequence ≤ lastSequence rows) := by
      rintro ⟨hpos, hle⟩
      rw [lastSequence_eq hrows] at hpos hle
      cases hl : rows.getLast? with
      | none =>
        rw [getLast?_eq_none_iff.1 hl] at hpos
        exact absurd hpos (Nat.lt_irrefl 0)
      | some l =>
        rw [lastSequence_of_getLast? hl] at hle
        have hlt := hafter l hl first mem_cons_self
        omega
    unfold appendBatch
    simp only [isEmpty_cons, Bool.false_eq_true, if_false, head?_cons,
      (assertStrictlyIncreasing_ok _).2 hinc, bind, Except.bind, if_neg hahead, hall]

end Rows

section Aof

variable {deps} {b : Backend} {fs : List AofFrame} (h : Clean deps b fs)

include h

theorem commit_accepted {r : AppendRequest} (hafter : After b.committed.entries.getLast? r.entries)
    {p : List UInt8} (hp : deps.serialize r.frame = .ok p) :
    (commitAppendGroup deps noFaults b [r]).1 = .ok () ∧
      (∃ fs', Clean deps (commitAppendGroup deps noFaults b [r]).2 fs') ∧
      (commitAppendGroup deps noFaults b [r]).2.committed.entries =
        b.committed.entries ++ r.entries := by
  have hv : validateRequests b.committed.entries.getLast? [r] = .ok () := by
    rw [validateRequests_singleton, validateBatchAgainstLast_ok]
    exact ⟨r.increasing, hafter⟩
  obtain ⟨hok, hclean, hentries, -⟩ := h.commit (cons_ne_nil r []) hv hp
  refine ⟨hok, ⟨_, hclean⟩, ?_⟩
  rw [hentries]
  simp [requestEntries]

theorem commit_rejected {r : AppendRequest}
    (hafter : ¬ After b.committed.entries.getLast? r.entries) :
    ∃ e, commitAppendGroup deps noFaults b [r] = (.error e, b) := by
  cases hv : validateRequests b.committed.entries.getLast? [r] with
  | error e => exact ⟨e, commitAppendGroup_rejected (cons_ne_nil r []) h.isOpen hv⟩
  | ok u =>
    rw [validateRequests_singleton, validateBatchAgainstLast_ok] at hv
    exact absurd hv.2 hafter

end Aof

variable {es : List StorageEntry}

theorem submission_appendBatch (hne : es ≠ []) (hinc : Increasing es) :
    ApiCall.submission (.appendBatch es) = .ok (some (.ofBatch es hne hinc)) := by
  simp only [ApiCall.submission, dif_neg hne]
  split
  next error herror =>
    rw [(assertStrictlyIncreasing_ok es).2 hinc] at herror
    cases herror
  next => rfl

theorem submission_appendBatch_error (hne : es ≠ [])
    (hinc : ¬ Increasing es) : ∃ error, ApiCall.submission (.appendBatch es) = .error error := by
  simp only [ApiCall.submission, dif_neg hne]
  split
  next error _ => exact ⟨error, rfl⟩
  next hok => exact absurd ((assertStrictlyIncreasing_ok es).1 hok) hinc

/-! ### Runs -/

theorem collected_filter (entries : List StorageEntry) (afterSeq : Nat) :
    collected (entries.filter fun e => afterSeq < e.sequence) afterSeq =
      collected entries afterSeq := by
  unfold collected replayEntries
  rw [filter_filter]
  simp only [Bool.and_self]

variable {deps sql}

structure Answered (deps : Deps) (sql : SqliteLib) (t : Trio) (call : StorageCall) (reply : Reply)
    (log : List StorageEntry) : Prop where
  memory : t.memory.call call = (reply, { t.memory with entries := log })
  aof : (aofCall deps t.aof call).1 = reply ∧ (∃ fs, Clean deps (aofCall deps t.aof call).2 fs) ∧
    (aofCall deps t.aof call).2.committed.entries = log
  sqlite : Rows.call sql t.sqlite call = (reply, log)
  encodable : ∀ e ∈ log, ∃ payload, deps.serialize (.entry e) = .ok payload

section Calls

variable {t : Trio} {log : List StorageEntry} (h : Matching deps t log)

include h

theorem Matching.increasing : Increasing log := by
  obtain ⟨fs, hclean⟩ := h.clean
  exact h.aof ▸ hclean.increasing

theorem Matching.memory_eq : t.memory = { t.memory with entries := log } := by
  rw [← h.memory]

theorem Matching.rejected {call : StorageCall} (hmemory : t.memory.call call = (.rejected, t.memory))
    (haof : aofCall deps t.aof call = (.rejected, t.aof))
    (hsqlite : Rows.call sql t.sqlite call = (.rejected, t.sqlite)) :
    Answered deps sql t call .rejected log where
  memory := by rw [hmemory, ← h.memory_eq]
  aof := by
    rw [haof]
    exact ⟨rfl, h.clean, h.aof⟩
  sqlite := by rw [hsqlite, h.sqlite]
  encodable := h.encodable

theorem Matching.append {e : StorageEntry} (hp : Portable deps sql log (.append e)) :
    ∃ reply log', Answered deps sql t (.append e) reply log' := by
  obtain ⟨fs, hclean⟩ := h.clean
  obtain ⟨haccept, hreject⟩ := hp
  have hmemory := h.memory
  have hsqlite := h.sqlite
  have haof := h.aof
  have hcall : aofCall deps t.aof (.append e) =
      (Reply.ofResult (commitAppendGroup deps noFaults t.aof [.ofEntry e]).1,
        (commitAppendGroup deps noFaults t.aof [.ofEntry e]).2) := rfl
  by_cases hafter : After log.getLast? [e]
  · obtain ⟨hstorable, p, hpayload⟩ := haccept hafter
    refine ⟨.done, log ++ [e], ?_, ?_, ?_, ?_⟩
    · have happend := MemoryBackend.append_accepted h.isOpen (hmemory.symm ▸ hafter)
      rw [hmemory] at happend
      simp only [MemoryBackend.call, MemoryBackend.after, happend]
      rfl
    · have haccepted := commit_accepted hclean (r := .ofEntry e) (haof.symm ▸ hafter) hpayload
      rw [haof] at haccepted
      rw [hcall, haccepted.1]
      exact ⟨rfl, haccepted.2⟩
    · have hlast : ∀ row ∈ log, row.sequence < e.sequence := fun row hrow =>
        (pairwise_append.1 ((increasing_append_iff h.increasing).2
          ⟨increasing_singleton e, hafter⟩)).2.2 row hrow e mem_cons_self
      rw [hsqlite]
      simp only [Rows.call, Rows.after, Rows.insert_last hstorable hlast]
      rfl
    · intro x hx
      rcases mem_append.1 hx with hx | hx
      · exact h.encodable x hx
      · rw [mem_singleton.1 hx]
        exact ⟨p, hpayload⟩
  · refine ⟨.rejected, log, h.rejected ?_ ?_ ?_⟩
    · obtain ⟨error, herror⟩ := MemoryBackend.append_rejected h.isOpen
        (hmemory.symm ▸ hafter : ¬ After t.memory.entries.getLast? [e])
      simp only [MemoryBackend.call, MemoryBackend.after, herror]
      rfl
    · obtain ⟨error, herror⟩ := commit_rejected hclean (r := .ofEntry e)
        (haof.symm ▸ hafter : ¬ After t.aof.committed.entries.getLast? [e])
      rw [hcall, herror]
      rfl
    · obtain ⟨error, herror⟩ := Rows.insert_rejected (hsqlite.symm ▸ hreject hafter)
      simp only [Rows.call, Rows.after, herror]
      rfl

variable {es : List StorageEntry}

theorem Matching.appendBatch (hp : Portable deps sql log (.appendBatch es)) :
    ∃ reply log', Answered deps sql t (.appendBatch es) reply log' := by
  obtain ⟨fs, hclean⟩ := h.clean
  have hmemory := h.memory
  have hsqlite := h.sqlite
  have haof := h.aof
  by_cases hok : Increasing es ∧ After log.getLast? es
  · obtain ⟨hinc, hafter⟩ := hok
    have hchecked : validateBatchAgainstLast log.getLast? es = .ok () :=
      (validateBatchAgainstLast_ok _ _).2 ⟨hinc, hafter⟩
    have hmemoryCall : t.memory.call (.appendBatch es) =
        (.done, { t.memory with entries := log ++ es }) := by
      simp only [MemoryBackend.call, MemoryBackend.after,
        MemoryBackend.appendBatch_eq h.isOpen, hmemory, hchecked]
      rfl
    by_cases hne : es = []
    · subst hne
      refine ⟨.done, log, ?_, ⟨rfl, h.clean, haof⟩, ?_, h.encodable⟩
      · rw [hmemoryCall, append_nil]
      · rw [hsqlite]
        rfl
    · obtain ⟨hholdable, p, hpayload⟩ := hp hne hinc hafter
      have hcall : aofCall deps t.aof (.appendBatch es) =
          (Reply.ofResult (commitAppendGroup deps noFaults t.aof [.ofBatch es hne hinc]).1,
            (commitAppendGroup deps noFaults t.aof [.ofBatch es hne hinc]).2) := by
        simp only [aofCall, Backend.call, submission_appendBatch hne hinc]
      refine ⟨.done, log ++ es, hmemoryCall, ?_, ?_, ?_⟩
      · have haccepted := commit_accepted hclean (r := .ofBatch es hne hinc)
          (haof.symm ▸ hafter) hpayload
        rw [haof] at haccepted
        rw [hcall, haccepted.1]
        exact ⟨rfl, haccepted.2⟩
      · rw [hsqlite]
        simp only [Rows.call, Rows.after, Rows.appendBatch_accepted h.increasing hinc hafter
          fun e he => (hholdable e he).1]
        rfl
      · intro x hx
        rcases mem_append.1 hx with hx | hx
        · exact h.encodable x hx
        · exact (hholdable x hx).2
  · refine ⟨.rejected, log, h.rejected ?_ ?_ ?_⟩
    · cases hchecked : validateBatchAgainstLast t.memory.entries.getLast? es with
      | error e =>
        simp only [MemoryBackend.call, MemoryBackend.after,
          MemoryBackend.appendBatch_eq h.isOpen, hchecked]
        rfl
      | ok u =>
        rw [hmemory, validateBatchAgainstLast_ok] at hchecked
        exact absurd hchecked hok
    · have hne : es ≠ [] := by
        rintro rfl
        exact hok ⟨increasing_nil, by simp [After]⟩
      by_cases hinc : Increasing es
      · obtain ⟨error, herror⟩ := commit_rejected hclean (r := .ofBatch es hne hinc)
          (haof.symm ▸ fun hafter => hok ⟨hinc, hafter⟩)
        simp only [aofCall, Backend.call, submission_appendBatch hne hinc, herror]
        rfl
      · obtain ⟨error, herror⟩ := submission_appendBatch_error hne hinc
        simp only [aofCall, Backend.call, herror]
        rfl
    · have hreject : ∃ error, Rows.appendBatch sql t.sqlite es = .error error := by
        rw [hsqlite]
        exact Rows.appendBatch_rejected h.increasing hok
      obtain ⟨error, herror⟩ := hreject
      simp only [Rows.call, Rows.after, herror]
      rfl

theorem Matching.snapshot (hp : Portable deps sql log (.snapshot es)) :
    ∃ reply log', Answered deps sql t (.snapshot es) reply log' := by
  obtain ⟨fs, hclean⟩ := h.clean
  by_cases hinc : Increasing es
  · have hassert := (assertStrictlyIncreasing_ok es).2 hinc
    have hholdable := hp.1 hinc
    have hencodable : ∀ e ∈ es, ∃ p, deps.serialize (.entry e) = .ok p :=
      fun e he => (hholdable e he).2
    obtain ⟨file, hfile, -⟩ := rewrite_encodes hencodable
    refine ⟨.done, es, ?_, ?_, ?_, hencodable⟩
    · simp only [MemoryBackend.call, MemoryBackend.after, MemoryBackend.snapshot_eq h.isOpen,
        hassert]
      rfl
    · rcases hclean.snapshot_cases hencodable with ⟨hnot, -⟩ | ⟨-, hentries, hsnapshot⟩
      · exact absurd hinc hnot
      · have hdone : (executeSnapshot deps t.aof es).1 = .ok () := by
          simp [executeSnapshot, hassert, hfile, hclean.isOpen]
        simp only [aofCall, hassert, hdone]
        exact ⟨rfl, ⟨_, hsnapshot⟩, hentries⟩
    · have hall : Rows.insertAll sql [] es = .ok es :=
        Rows.insertAll_last hinc fun e he => (hholdable e he).1
      simp only [Rows.call, Rows.after, Rows.snapshot, hall]
      rfl
  · obtain ⟨error, hassert⟩ : ∃ error, assertStrictlyIncreasing es = .error error := by
      cases hassert : assertStrictlyIncreasing es with
      | error error => exact ⟨error, rfl⟩
      | ok u => exact absurd ((assertStrictlyIncreasing_ok es).1 hassert) hinc
    refine ⟨.rejected, log, h.rejected ?_ ?_ ?_⟩
    · simp only [MemoryBackend.call, MemoryBackend.after, MemoryBackend.snapshot_eq h.isOpen,
        hassert]
      rfl
    · simp only [aofCall, hassert]
    · cases hinsert : Rows.insertAll sql [] es with
      | error error =>
        simp only [Rows.call, Rows.after, Rows.snapshot, hinsert]
        rfl
      | ok rows =>
        obtain ⟨hstorable, hnodup⟩ := Rows.insertAll_ok hinsert
        rcases hp.2 hinc with hrepeats | ⟨e, he, hnot⟩
        · exact absurd hnodup hrepeats
        · rw [(hstorable e he).1] at hnot
          cases hnot

theorem Matching.compact : ∃ reply log', Answered deps sql t .compact reply log' := by
  obtain ⟨fs, hclean⟩ := h.clean
  have hencodable := h.aof.symm ▸ h.encodable
  obtain ⟨hcommitted, hrewritten⟩ := hclean.compact hencodable
  obtain ⟨file, hfile, -⟩ := rewrite_encodes hencodable
  refine ⟨.done, log, ?_, ?_, ?_, h.encodable⟩
  · rw [← h.memory_eq]
    rfl
  · have hdone : ∃ result, (executeCompact deps t.aof).1 = .ok result := by
      simp [executeCompact, hfile]
    obtain ⟨result, hresult⟩ := hdone
    simp only [aofCall, hresult]
    exact ⟨rfl, ⟨_, hrewritten⟩, by rw [hcommitted, h.aof]⟩
  · rw [h.sqlite]
    rfl

theorem Matching.replay {afterSeq : Nat} (hp : Portable deps sql log (.replay afterSeq)) :
    ∃ reply log', Answered deps sql t (.replay afterSeq) reply log' := by
  refine ⟨Reply.ofReplay (collected log afterSeq), log, ?_, ?_, ?_, h.encodable⟩
  · rw [← h.memory_eq]
    simp only [MemoryBackend.call, h.memory]
  · refine ⟨?_, h.clean, h.aof⟩
    simp only [aofCall, Backend.replay, h.aof]
  · rw [h.sqlite]
    simp only [Rows.call, Rows.replay, if_neg (Nat.not_le.2 hp), collected_filter]

theorem Matching.call {call : StorageCall} (hp : Portable deps sql log call) :
    ∃ reply log', Answered deps sql t call reply log' := by
  cases call with
  | append e => exact h.append hp
  | appendBatch es => exact h.appendBatch hp
  | snapshot es => exact h.snapshot hp
  | compact => exact h.compact
  | replay afterSeq => exact h.replay hp

end Calls

def Interchangeable (deps : Deps) (t : Trio) : Prop :=
  (∃ log, Matching deps t log) ∧ ∀ reply ∈ t.replies, reply.1 = reply.2.1 ∧ reply.1 = reply.2.2

theorem Interchangeable.move {t t' : Trio} {call : StorageCall} (h : Interchangeable deps t)
    (hp : Portable deps sql t.memory.entries call) (hs : t.step deps sql call = some t') :
    Interchangeable deps t' := by
  obtain ⟨⟨log, hlog⟩, hreplies⟩ := h
  rw [hlog.memory] at hp
  obtain ⟨reply, log', hanswered⟩ := hlog.call hp
  obtain ⟨haofReply, haofClean, haofEntries⟩ := hanswered.aof
  cases hs
  refine ⟨⟨log', ?_⟩, ?_⟩
  · constructor
    · simp only [hanswered.memory, hlog.isOpen]
    · simp only [hanswered.memory]
    · exact haofClean
    · exact haofEntries
    · simp only [hanswered.sqlite]
    · exact hanswered.encodable
  · intro r hr
    rcases mem_append.1 hr with hr | hr
    · exact hreplies r hr
    · rw [mem_singleton.1 hr, hanswered.memory, haofReply, hanswered.sqlite]
      exact ⟨rfl, rfl⟩

theorem interchangeable_fresh : Interchangeable deps {} :=
  ⟨⟨[], rfl, rfl, ⟨[], clean_emptyBackend⟩, rfl, rfl, nofun⟩, nofun⟩

/-- Under calls that are all portable the three backends answer alike, report the same last
sequence number and replay the same entries, which are in order. -/
theorem backends_interchangeable (deps : Deps) (sql : SqliteLib) {calls : List StorageCall}
    {t : Trio}
    (hmeet : StepsMeet (fun call t => Trio.step deps sql call t)
      (fun call t => Portable deps sql t.memory.entries call) calls {})
    (hrun : runSteps (fun call t => Trio.step deps sql call t) calls {} = some t) :
    (∀ reply ∈ t.replies, reply.1 = reply.2.1 ∧ reply.1 = reply.2.2) ∧
      lastSequence t.memory.entries = lastSequence t.aof.committed.entries ∧
      lastSequence t.memory.entries = Rows.lastSequence t.sqlite ∧
      t.memory.entries = t.aof.replay ∧ t.memory.entries = t.sqlite ∧
      Increasing t.memory.entries := by
  obtain ⟨⟨log, hlog⟩, hreplies⟩ := runSteps_invariant
    (fun _ _ _ h hp hs => Interchangeable.move h hp hs) interchangeable_fresh hmeet hrun
  have hinc := hlog.increasing
  rw [hlog.memory, hlog.aof, hlog.sqlite]
  refine ⟨hreplies, rfl, (Rows.lastSequence_eq hinc).symm, hlog.aof.symm, rfl, hinc⟩

namespace LateEntry

def roomy : SqliteLib where
  rowFits := fun _ => true
  outOfRange := "out of range"
  tooBig := "too big"
  uniqueFailed := "UNIQUE constraint failed"

def entry (sequence : Nat) : StorageEntry := ⟨sequence, 0, []⟩

def lateCalls : List StorageCall := [.append (entry 2), .append (entry 1), .replay 0]

/-- Only the database takes it, and replays it first. -/
theorem late_entry_taken_by_sqlite :
    (runSteps (fun call t => Trio.step Bincode.deps roomy call t) lateCalls {}).map
      Trio.replies = some
        [(.done, .done, .done), (.rejected, .rejected, .done),
          (.replayed [entry 2] 2, .replayed [entry 2] 2, .replayed [entry 1, entry 2] 2)] := rfl

def repeatedCalls : List StorageCall :=
  [.append (entry 1), .append (entry 1), .compact, .replay 0]

theorem repeated_entry_rejected_alike : ∃ t,
    runSteps (fun call t => Trio.step Bincode.deps roomy call t) repeatedCalls {} = some t ∧
      t.replies.map Prod.fst = [.done, .rejected, .done, .replayed [entry 1] 1] ∧
      t.memory.entries = t.aof.replay ∧ t.memory.entries = t.sqlite := by
  have hholdable : Holdable Bincode.deps roomy (entry 1) := ⟨rfl, _, rfl⟩
  have hmeet : StepsMeet (fun call t => Trio.step Bincode.deps roomy call t)
      (fun call t => Portable Bincode.deps roomy t.memory.entries call) repeatedCalls {} := by
    refine .cons ⟨fun _ => hholdable, fun h => absurd nofun h⟩ rfl
      (.cons ⟨fun h => ?_, fun _ => .inl ⟨entry 1, mem_cons_self, rfl⟩⟩ rfl
        (.cons trivial rfl (.cons (show (0 : Nat) < 2 ^ 63 by decide) rfl trivial)))
    exact hholdable
  obtain ⟨-, -, -, haof, hsqlite, -⟩ := backends_interchangeable Bincode.deps roomy hmeet rfl
  exact ⟨_, rfl, rfl, haof, hsqlite⟩

end LateEntry

end LatLng.Storage
