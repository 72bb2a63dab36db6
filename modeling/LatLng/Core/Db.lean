import LatLng.Core.Record

/-! The state of a database, and how records reach its log. -/

namespace LatLng.Core

open Geo Geofence Storage

/-- A backend that keeps the log faithfully. The script `faults` decides, one storage
call at a time, whether the call fails for a reason outside the model; a failed call
changes nothing. -/
structure LogStore where
  entries : List StorageEntry := []
  storesCommandLog : Bool := true
  closed : Bool := false
  faults : List (Option StorageError) := []

namespace LogStore

def fault (s : LogStore) : Option StorageError × LogStore :=
  match s.faults with
  | [] => (none, s)
  | fault :: faults => (fault, { s with faults })

def appendBatch (s : LogStore) (batch : List StorageEntry) : Except StorageError Unit × LogStore :=
  match s.fault with
  | (some e, s) => (.error e, s)
  | (none, s) =>
    if s.closed then (.error .closed, s)
    else match validateBatchAgainstLast s.entries.getLast? batch with
      | .error e => (.error e, s)
      | .ok () => (.ok (), { s with entries := s.entries ++ batch })

def snapshot (s : LogStore) (entries : List StorageEntry) : Except StorageError Unit × LogStore :=
  match s.fault with
  | (some e, s) => (.error e, s)
  | (none, s) =>
    if s.closed then (.error .closed, s)
    else match assertStrictlyIncreasing entries with
      | .error e => (.error e, s)
      | .ok () => (.ok (), { s with entries })

def read {α : Type} (s : LogStore) (f : List StorageEntry → Except StorageError α) :
    Except StorageError α × LogStore :=
  match s.fault with
  | (some e, s) => (.error e, s)
  | (none, s) => (f s.entries, s)

structure SameLog (s s' : LogStore) : Prop where
  entries : s'.entries = s.entries
  stores : s'.storesCommandLog = s.storesCommandLog

theorem SameLog.refl (s : LogStore) : SameLog s s := ⟨rfl, rfl⟩

variable {s : LogStore} {s' : LogStore}

theorem SameLog.trans {s'' : LogStore} (h : SameLog s s') (h' : SameLog s' s'') :
    SameLog s s'' :=
  ⟨h'.entries.trans h.entries, h'.stores.trans h.stores⟩

theorem sameLog_fault (s : LogStore) : SameLog s s.fault.2 := by
  rw [fault]
  split <;> exact ⟨rfl, rfl⟩

theorem appendBatch_cases (s : LogStore) (batch : List StorageEntry) :
    (∃ e, (s.appendBatch batch).1 = .error e ∧ SameLog s (s.appendBatch batch).2) ∨
      ((s.appendBatch batch).1 = .ok () ∧
        (s.appendBatch batch).2.entries = s.entries ++ batch ∧
        (s.appendBatch batch).2.storesCommandLog = s.storesCommandLog ∧
        Increasing batch ∧ After s.entries.getLast? batch) := by
  have hs := s.sameLog_fault
  rw [appendBatch]
  rcases h : s.fault with ⟨_ | e, s'⟩ <;> rw [h] at hs <;> dsimp only at hs ⊢
  · split
    · exact .inl ⟨_, rfl, hs⟩
    · split
      next e he => exact .inl ⟨e, rfl, hs⟩
      next hv =>
        rw [hs.entries] at hv ⊢
        obtain ⟨hinc, hafter⟩ := (validateBatchAgainstLast_ok _ _).1 hv
        exact .inr ⟨rfl, rfl, hs.stores, hinc, hafter⟩
  · exact .inl ⟨e, rfl, hs⟩

theorem snapshot_cases (s : LogStore) (entries : List StorageEntry) :
    (∃ e, (s.snapshot entries).1 = .error e ∧ SameLog s (s.snapshot entries).2) ∨
      ((s.snapshot entries).1 = .ok () ∧ (s.snapshot entries).2.entries = entries ∧
        (s.snapshot entries).2.storesCommandLog = s.storesCommandLog ∧ Increasing entries) := by
  have hs := s.sameLog_fault
  rw [snapshot]
  rcases h : s.fault with ⟨_ | e, s'⟩ <;> rw [h] at hs <;> dsimp only at hs ⊢
  · split
    · exact .inl ⟨_, rfl, hs⟩
    · split
      next e he => exact .inl ⟨e, rfl, hs⟩
      next hv => exact .inr ⟨rfl, rfl, hs.stores, (assertStrictlyIncreasing_ok _).1 hv⟩
  · exact .inl ⟨e, rfl, hs⟩

theorem read_cases {α : Type} {f : List StorageEntry → Except StorageError α}
    {r : Except StorageError α} (h : s.read f = (r, s')) :
    SameLog s s' ∧ ((∃ e, r = .error e) ∨ r = f s.entries) := by
  have hs := s.sameLog_fault
  rw [read] at h
  rcases hf : s.fault with ⟨_ | e, t⟩ <;> rw [hf] at hs h <;> cases h
  · exact ⟨hs, .inr (congrArg f hs.entries)⟩
  · exact ⟨hs, .inl ⟨e, rfl⟩⟩

theorem fault_of_no_faults (h : s.faults = []) : s.fault = (none, s) := by
  rw [fault, h]

variable {batch : List StorageEntry}

theorem appendBatch_error {e : StorageError}
    (h : s.appendBatch batch = (.error e, s')) : s' = { s with faults := s'.faults } := by
  have hfault : s.fault.2 = { s with faults := s.fault.2.faults } := by
    rw [fault]
    split <;> rfl
  rw [appendBatch] at h
  rcases hf : s.fault with ⟨_ | e', t⟩ <;> rw [hf] at h hfault <;> dsimp only at h hfault
  · split at h
    · cases h
      exact hfault
    · split at h
      · cases h
        exact hfault
      · cases h
  · cases h
    exact hfault

theorem faults_of_appendBatch
    {r : Except StorageError Unit} (hs : s.faults = []) (h : s.appendBatch batch = (r, s')) :
    s'.faults = [] := by
  rw [appendBatch, fault_of_no_faults hs] at h
  dsimp only at h
  split at h
  · cases h
    exact hs
  · split at h <;> cases h <;> exact hs

theorem read_of_no_faults {α : Type} (h : s.faults = [])
    (f : List StorageEntry → Except StorageError α) : s.read f = (f s.entries, s) := by
  rw [read, fault_of_no_faults h]

theorem appendBatch_of_no_faults (hfaults : s.faults = []) (hopen : s.closed = false)
    (hinc : Increasing batch) (hafter : After s.entries.getLast? batch) :
    s.appendBatch batch = (.ok (), { s with entries := s.entries ++ batch }) := by
  rw [appendBatch, fault_of_no_faults hfaults]
  dsimp only
  rw [if_neg (by rw [hopen]; exact Bool.false_ne_true),
    (validateBatchAgainstLast_ok _ _).2 ⟨hinc, hafter⟩]

theorem snapshot_of_no_faults (hfaults : s.faults = []) (hopen : s.closed = false)
    {entries : List StorageEntry} (hinc : Increasing entries) :
    s.snapshot entries = (.ok (), { s with entries }) := by
  rw [snapshot, fault_of_no_faults hfaults]
  dsimp only
  rw [if_neg (by rw [hopen]; exact Bool.false_ne_true), (assertStrictlyIncreasing_ok _).2 hinc]

theorem snd_read {α : Type} (s : LogStore) (f : List StorageEntry → Except StorageError α) :
    (s.read f).2 = s.fault.2 := by
  rw [read]
  rcases s.fault with ⟨_ | _, s'⟩ <;> rfl

end LogStore

structure Config where
  readOnly : Bool := false
  webhookRetryCount : Nat := 8

structure Store where
  collections : Std.ExtTreeMap String VersionedCollection := ∅
  geofences : Registry := {}

structure Db extends Store where
  storage : LogStore
  config : Config := {}
  nextSequence : Nat := 0
  expiredObjectsTotal : Nat := 0

/-- What a call finds outside the database: the clock, and the order in which the hash maps
it walks hand out their keys. -/
structure Ctx where
  nowMs : Nat
  nowNs : Nat
  order : List String → List String
  order_perm : ∀ keys, (order keys).Perm keys

variable (lib : Lib)

/-- The deadline `seconds` from now, saturating in a 64-bit word. -/
def deadlineAfter (now seconds : Nat) : Nat := min (now + seconds * 1000) (2 ^ 64 - 1)

namespace Db

def ensureWritable (db : Db) : Except CoreError Unit :=
  if db.config.readOnly then .error .readOnly else .ok ()

def reserveSequences (db : Db) (count : Nat) : List Nat × Db :=
  (List.range' (db.nextSequence + 1) count, { db with nextSequence := db.nextSequence + count })

end Db

def encodeEntriesForSequences (nowNs : Nat) :
    List LogRecord → List Nat → Except CoreError (List StorageEntry)
  | record :: records, sequence :: sequences =>
    match encodeLogRecord lib record with
    | .error e => .error e
    | .ok command =>
      match encodeEntriesForSequences nowNs records sequences with
      | .error e => .error e
      | .ok entries => .ok ({ sequence, timestampNs := nowNs, command } :: entries)
  | _, _ => .ok []

def buildCommandBatchRecords (command : Command) (sequences : List Nat)
    (webhookRecords : List WebhookEnqueueRecord) : List LogRecord :=
  let commandSequence := sequences.headD 0
  .command command :: ((sequences.drop 1).zip webhookRecords).mapIdx fun index (sequence, record) =>
    let jobId := opaqueWebhookJobId lib sequence
    .webhookEnqueue { record with
      jobId
      event := { record.event with
        jobId := some jobId
        eventId := some (opaqueWebhookEventId lib commandSequence index record.event) } }

namespace Db

def appendNumbered (db : Db) (nowNs : Nat) (records : List LogRecord) (sequences : List Nat) :
    Except CoreError (List Nat) × Db :=
  match encodeEntriesForSequences lib nowNs records sequences with
  | .error e => (.error e, db)
  | .ok entries =>
    match db.storage.appendBatch entries with
    | (.error e, storage) => (.error (.storage e), { db with storage })
    | (.ok (), storage) => (.ok sequences, { db with storage })

def persistCommandBatch (db : Db) (ctx : Ctx) (command : Command)
    (webhookRecords : List WebhookEnqueueRecord) : Except CoreError (List Nat) × Db :=
  let (sequences, db) := db.reserveSequences (1 + webhookRecords.length)
  if !db.storage.storesCommandLog then (.ok sequences, db)
  else db.appendNumbered lib ctx.nowNs
    (buildCommandBatchRecords lib command sequences webhookRecords) sequences

def appendLogRecords (db : Db) (ctx : Ctx) (records : List LogRecord) :
    Except CoreError (List Nat) × Db :=
  if records.isEmpty then (.ok [], db)
  else
    let (sequences, db) := db.reserveSequences records.length
    if !db.storage.storesCommandLog then (.ok sequences, db)
    else db.appendNumbered lib ctx.nowNs records sequences

end Db

end LatLng.Core
