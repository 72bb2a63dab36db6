import LatLng.Concurrent.LogOrder
import LatLng.Webhook.Compaction

/-! The compaction handler of the HTTP server beside other calls. Without a webhook queue it holds
the control gate; with one it reads the state and rewrites the log without any gate. -/

namespace LatLng.Concurrent

open LatLng.Core Geo Geofence Storage LatLng.Lib Webhook Std List

variable {lib : Lib} {n : Nat}

/-- How far the handler has got. It collects the records of the snapshot, looks up the last
sequence number, counts what is in the log, replaces the log and resets the sequence counter. -/
inductive Handler where
  | idle
  /-- Holds the read lock of the collection table; the named collections are still to be read. -/
  | collecting (names : List String) (records : List LogRecord)
  | channels (records : List LogRecord)
  | hooks (records : List LogRecord)
  | counting (records : List LogRecord)
  | replaying (records : List LogRecord) (currentLast : Nat)
  | installing (before : List StorageEntry) (currentLast : Nat) (entries : List StorageEntry)
  | resetting (before : List StorageEntry) (currentLast : Nat) (entries : List StorageEntry)
  | done (result : Except CoreError CompactionResult)

namespace Handler

def active : Handler → Bool
  | .idle => false
  | .resetting _ _ _ => false
  | .done _ => false
  | _ => true

def running : Handler → Bool
  | .idle => false
  | .done _ => false
  | _ => true

end Handler

structure Shrinking (n : Nat) where
  pool : Pool n
  handler : Handler := .idle

inductive Action (n : Nat) where
  | call (i : Fin n) (ctx : Ctx)
  | handler (ctx : Ctx)

def Phase.entering (request : Request) : Phase → Bool
  | .start => request.collection?.isSome
  | .waiting => true
  | _ => false

def Phase.mapping (s : Store) : Phase → Bool
  | .appended _ w => match w.effect with
    | .createCollection _ => true
    | .dropCollection _ => true
    | .rename _ _ => true
    | effect => (missing s effect).isSome
  | _ => false

def cellRecords (s : Store) (now : Nat) (name : String) : List LogRecord :=
  match s.collections[name]? with
  | none => []
  | some cell => .command (.createCollection name) ::
      (cell.objects.toList.filter fun object => !isExpired now object.2).map (Db.snapshotObject name)

namespace Shrinking

def start (db : Db) : Shrinking n := { pool := .start db }

variable (lib) (requests : Fin n → Request) (queue : Option Queue)

def handle (s : Shrinking n) (ctx : Ctx) : Option (Db × Handler) :=
  let db := s.pool.db
  match s.handler with
  | .idle =>
    if queue.isNone && (s.pool.gateHeld .shared || s.pool.gateHeld .exclusive) then none
    else some (db, .collecting db.collections.keys [])
  | .collecting [] records => some (db, .channels records)
  | .collecting (name :: names) records =>
    if s.pool.locked requests name then none
    else some (db, .collecting names (records ++ cellRecords db.toStore ctx.nowMs name))
  | .channels records => some (db, .hooks (records ++ Db.snapshotChannels db.toStore))
  | .hooks records =>
    let records := records ++ Db.snapshotHooks db.toStore ++
      (queue.map Queue.snapshotLogRecords).getD []
    if db.storage.storesCommandLog then some (db, .counting records)
    else some (db, .done (.ok
      { beforeEntries := 0, afterEntries := 0, beforeBytes := 0, afterBytes := 0 }))
  | .counting records =>
    match db.storage.read fun entries => .ok (lastSequence entries) with
    | (.error e, storage) => some ({ db with storage }, .done (.error (.storage e)))
    | (.ok currentLast, storage) => some ({ db with storage }, .replaying records currentLast)
  | .replaying records currentLast =>
    match db.storage.read fun entries => .ok (entries.filter fun entry => 0 < entry.sequence) with
    | (.error e, storage) => some ({ db with storage }, .done (.error (.storage e)))
    | (.ok before, storage) =>
      match Db.encodeSnapshot lib ctx currentLast records with
      | .error e => some ({ db with storage }, .done (.error e))
      | .ok entries => some ({ db with storage }, .installing before currentLast entries)
  | .installing before currentLast entries =>
    match db.storage.snapshot entries with
    | (.error e, storage) => some ({ db with storage }, .done (.error (.storage e)))
    | (.ok (), storage) => some ({ db with storage }, .resetting before currentLast entries)
  | .resetting before currentLast entries =>
    some ({ db with nextSequence := if entries.length = 0 then currentLast
        else Db.firstSequence currentLast entries.length + entries.length - 1 },
      .done (.ok
        { beforeEntries := before.length, afterEntries := entries.length
          beforeBytes := Db.entryBytes before, afterBytes := Db.entryBytes entries }))
  | .done _ => none

def step : Action n → Shrinking n → Option (Shrinking n)
  | .call i ctx, s =>
    if queue.isNone && s.handler.running && (s.pool.phase i).entering (requests i) then none
    else
      match s.handler with
      | .collecting _ _ =>
        if (s.pool.phase i).mapping s.pool.db.toStore then none
        else (s.pool.step lib requests (i, ctx)).map fun pool => { s with pool }
      | _ => (s.pool.step lib requests (i, ctx)).map fun pool => { s with pool }
  | .handler ctx, s =>
    (s.handle lib requests queue ctx).map fun (db, handler) =>
      { pool := { s.pool with db }, handler }

end Shrinking

/-! ### What the handler has read -/

variable (lib) in
structure Builds (records : List LogRecord) (v : View) : Prop where
  sound : ∀ record ∈ records, record.Sound lib
  view : records.foldl (View.applyRecord lib 0) {} = v

theorem Builds.append {records more : List LogRecord} {v v' : View} (h : Builds lib records v)
    (hsound : ∀ record ∈ more, record.Sound lib)
    (hview : more.foldl (View.applyRecord lib 0) v = v') : Builds lib (records ++ more) v' := by
  refine ⟨fun record hr => ?_, by rw [foldl_append, h.view, hview]⟩
  rcases mem_append.1 hr with hr | hr
  · exact h.sound record hr
  · exact hsound record hr

variable (lib) in
def Handler.Reads (db : Db) : Handler → Prop
  | .collecting names records => Fresh 0 db.view ∧
    records ++ names.flatMap (cellRecords db.toStore 0) = Db.snapshotCollections db.toStore 0
  | .channels records => Builds lib records { collections := db.view.collections }
  | .hooks records =>
    Builds lib records { collections := db.view.collections, channels := db.view.channels }
  | .counting records => Builds lib records db.view
  | .replaying records _ => Builds lib records db.view
  | .installing _ _ entries =>
    (∀ entry ∈ entries, Applicable lib entry) ∧ logView lib entries = db.view
  | _ => True

variable {db : Db} {handler : Handler}

theorem Handler.Reads.congr {db' : Db} (h : handler.Reads lib db)
    (hcollections : db'.collections = db.collections) (hview : db'.view = db.view) :
    handler.Reads lib db' := by
  cases handler with
  | collecting names records =>
    obtain ⟨hfresh, hrecords⟩ := h
    refine ⟨hview ▸ hfresh, ?_⟩
    have hcells : cellRecords db'.toStore 0 = cellRecords db.toStore 0 := by
      funext name
      rw [cellRecords, cellRecords, hcollections]
    rw [hcells, hrecords, Db.snapshotCollections, Db.snapshotCollections, hcollections]
  | channels records | hooks records | counting records | replaying records last
  | installing before last entries =>
    rw [Handler.Reads, hview]
    exact h
  | _ => trivial

variable {s : Store}

theorem cellRecords_of_fresh {now : Nat} (h : Fresh now s.view) (name : String) :
    cellRecords s now name = cellRecords s 0 name := by
  rw [cellRecords, cellRecords]
  cases hc : s.collections[name]? with
  | none => rfl
  | some cell =>
    have hfilter : cell.objects.toList.filter (fun object => !isExpired now object.2) =
        cell.objects.toList.filter fun object => !isExpired 0 object.2 := by
      refine filter_congr fun object ho => ?_
      have hget : s.view.get name object.1 = some object.2 := by
        rw [View.get, Store.collections_view, hc]
        exact ExtTreeMap.mem_toList_iff_getElem?_eq_some.1 ho
      rw [h name object.1 object.2 hget, h.zero name object.1 object.2 hget]
    dsimp only
    rw [hfilter]

theorem flatMap_cellRecords (s : Store) (now : Nat) :
    s.collections.keys.flatMap (cellRecords s now) = Db.snapshotCollections s now := by
  rw [← ExtTreeMap.map_fst_toList_eq_keys, flatMap_map, Db.snapshotCollections]
  refine flatMap_congr fun e he => ?_
  rw [cellRecords, ExtTreeMap.mem_toList_iff_getElem?_eq_some.1 he]

theorem builds_collections (h : s.Keyed) (hindexable : Core.Indexable lib s.view)
    (hfresh : Fresh 0 s.view) :
    Builds lib (Db.snapshotCollections s 0) { collections := s.view.collections } := by
  have hindexed : s.Indexed lib 0 := fun c id object hget _ => hindexable c id object hget
  refine ⟨fun record hr => ⟨hindexed.snapshot record hr, ?_⟩, ?_⟩
  · obtain ⟨e, -, hr⟩ := mem_flatMap.1 hr
    rcases mem_cons.1 hr with rfl | hr
    · rfl
    · obtain ⟨object, -, rfl⟩ := mem_map.1 hr
      rfl
  · rw [h.snapshotCollections, hfresh.live_eq]

theorem sound_snapshotChannels (s : Store) :
    ∀ record ∈ Db.snapshotChannels s, record.Sound lib := by
  intro record hr
  obtain ⟨e, -, rfl⟩ := mem_map.1 hr
  exact ⟨nofun, rfl⟩

theorem sound_snapshotHooks (s : Store) : ∀ record ∈ Db.snapshotHooks s, record.Sound lib := by
  intro record hr
  obtain ⟨e, -, rfl⟩ := mem_map.1 hr
  exact ⟨nofun, rfl⟩

theorem builds_queue {records : List LogRecord} {v : View} (h : Builds lib records v)
    (queue : Option Queue) :
    Builds lib (records ++ (queue.map Queue.snapshotLogRecords).getD []) v := by
  have hnone : ∀ record ∈ (queue.map Queue.snapshotLogRecords).getD [], record.command? = none := by
    intro record hr
    cases queue with
    | none => cases hr
    | some q => exact snapshotLogRecords_command hr
  refine h.append (fun record hr => ⟨replayable_of_command (hnone record hr), ?_⟩) ?_
  · cases record with
    | command c => cases hnone _ hr
    | _ => rfl
  · rw [foldl_applyRecord, filterMap_eq_nil_iff.2 hnone]
    rfl

/-! ### Runs in which nobody appends while the handler works -/

variable (lib) in
/-- A step that does no harm. Calls append what can be indexed and read back. The handler reads
while no object is past its deadline, and writes what can be read back. Without a gate, it begins
while no call has logged something that is still to be carried out, and no call appends until the
log is replaced. -/
def Undisturbed (queue : Option Queue) : Action n → Shrinking n → Prop
  | .call i _, s => Writable lib i s.pool ∧ (queue.isSome → s.handler.active = true →
      ∀ gate w sequences, s.pool.phase i ≠ .reserved gate w sequences)
  | .handler ctx, s =>
    match s.handler with
    | .idle => Fresh ctx.nowMs s.pool.db.view ∧
      (queue.isSome → ∀ i gate w, s.pool.phase i ≠ .appended gate w)
    | .collecting _ _ => Fresh ctx.nowMs s.pool.db.view
    | .replaying records _ => ∀ record ∈ records, record.Readable lib
    | _ => True

variable (lib) in
structure Quiet (queue : Option Queue) (s : Shrinking n) : Prop where
  settled : s.handler.active = true → ∀ i gate w, s.pool.phase i ≠ .appended gate w
  gated : queue = none → s.handler.running = true → ∀ i, (s.pool.phase i).gate? = none
  reads : s.handler.Reads lib s.pool.db

variable {requests : Fin n → Request} {p : Pool n} {i : Fin n} {ctx : Ctx} {current : Phase}

theorem Pool.Moves.of_appended {gate : Gate} {w : Write}
    (h : p.Moves lib requests i ctx current db (.appended gate w)) :
    current = .appended gate w ∨ ∃ sequences, current = .reserved gate w sequences := by
  generalize hphase : Phase.appended gate w = phase at h
  cases h with
  | append happend =>
    cases hphase
    exact .inr ⟨_, rfl⟩
  | create hmissing =>
    exact .inl rfl
  | change hmissing happly => split at hphase <;> cases hphase
  | _ => cases hphase

theorem Pool.Moves.view_eq {phase : Phase} (h : p.Moves lib requests i ctx current db phase)
    (hcurrent : ∀ gate w, current ≠ .appended gate w) :
    db.collections = p.db.collections ∧ db.view = p.db.view := by
  cases h with
  | append happend =>
    obtain ⟨entries, storage, -, -, -, rfl⟩ := Db.appendNumbered_ok happend
    exact ⟨rfl, rfl⟩
  | refuse happend =>
    obtain ⟨storage, -, rfl⟩ := Db.appendNumbered_error happend
    exact ⟨rfl, rfl⟩
  | create hmissing | fail hmissing happly | change hmissing happly =>
    exact absurd rfl (hcurrent _ _)
  | finish => exact ⟨rfl, p.db.view_applyPlanned _⟩
  | _ => exact ⟨rfl, rfl⟩

theorem Pool.Moves.gate_eq_none {phase : Phase} (h : p.Moves lib requests i ctx current db phase)
    (hgate : current.gate? = none) (hentering : current.entering (requests i) = false) :
    phase.gate? = none := by
  cases h with
  | skip hc => rfl
  | enter hc hgate =>
    rw [Phase.entering, hc] at hentering
    cases hentering
  | planAlone _ _ _ => cases hentering
  | answerAlone _ _ _ => rfl
  | _ => cases hgate

theorem Handler.running_of_active (h : handler.active) : handler.running = true := by
  cases handler with
  | idle | resetting before last entries | done result => cases h
  | _ => rfl

theorem Handler.reads_of_not_active (h : handler.active = false) (db : Db) :
    handler.Reads lib db := by
  cases handler with
  | idle | resetting before last entries | done result => trivial
  | _ => cases h

namespace Shrinking

variable {requests : Fin n → Request} {queue : Option Queue} {s s' : Shrinking n}

theorem step_call {i : Fin n} {ctx : Ctx} (h : s.step lib requests queue (.call i ctx) = some s') :
    (queue = none → s.handler.running → (s.pool.phase i).entering (requests i) = false) ∧
      ∃ pool, s.pool.step lib requests (i, ctx) = some pool ∧ s' = { s with pool } := by
  rw [step] at h
  split at h
  · cases h
  next hgate =>
    refine ⟨fun hqueue hrunning => ?_, ?_⟩
    · rw [hqueue, hrunning] at hgate
      exact Bool.eq_false_iff.2 hgate
    · have hmap : (s.pool.step lib requests (i, ctx)).map (fun pool => { s with pool }) = some s' := by
        split at h
        · split at h
          · cases h
          · exact h
        · exact h
      obtain ⟨pool, hpool, rfl⟩ := Option.map_eq_some_iff.1 hmap
      exact ⟨pool, hpool, rfl⟩

end Shrinking

namespace Quiet

variable {requests : Fin n → Request} {queue : Option Queue} {s : Shrinking n}

theorem call (h : Quiet lib queue s) {i : Fin n} {ctx : Ctx} {pool : Pool n}
    (hcond : Undisturbed lib queue (.call i ctx) s)
    (hentering : queue = none → s.handler.running →
      (s.pool.phase i).entering (requests i) = false)
    (hstep : s.pool.step lib requests (i, ctx) = some pool) : Quiet lib queue { s with pool } := by
  obtain ⟨db, phase, hmoves, rfl⟩ := Pool.step_cases hstep
  refine ⟨fun hactive j gate w hj => ?_, fun hqueue hrunning j => ?_, ?_⟩
  · by_cases hji : j = i
    · subst hji
      rw [Pool.phase_set_self] at hj
      subst hj
      rcases hmoves.of_appended with hold | ⟨sequences, hold⟩
      · exact h.settled hactive j gate w hold
      · cases hqueue : queue with
        | none =>
          have hgate := h.gated hqueue (Handler.running_of_active hactive) j
          rw [hold] at hgate
          cases hgate
        | some q => exact hcond.2 (by rw [hqueue]; rfl) hactive gate w sequences hold
    · rw [s.pool.phase_set_of_ne hji] at hj
      exact h.settled hactive j gate w hj
  · by_cases hji : j = i
    · subst hji
      rw [Pool.phase_set_self]
      exact hmoves.gate_eq_none (h.gated hqueue hrunning j) (hentering hqueue hrunning)
    · rw [s.pool.phase_set_of_ne hji]
      exact h.gated hqueue hrunning j
  · cases hactive : s.handler.active with
    | false => exact Handler.reads_of_not_active hactive _
    | true =>
      obtain ⟨hcollections, hview⟩ := hmoves.view_eq (h.settled hactive i)
      exact h.reads.congr hcollections hview

end Quiet

/-! ### Steps of the handler -/

section Handle

variable {requests : Fin n → Request} {queue : Option Queue} {v : View} {s : Shrinking n}
  {served : List (Fin n × Ctx)}

theorem Traced.settled_eq (hnone : ∀ i gate w, p.phase i ≠ .appended gate w) :
    p.settled lib = p.db.view := by
  refine settle_id (fun i _ => ?_) _
  cases hi : p.phase i with
  | appended gate w => exact absurd hi (hnone i gate w)
  | _ => rfl

theorem Traced.fault (h : Traced lib requests v p served) {storage : LogStore}
    (hsame : p.db.storage.SameLog storage) :
    Traced lib requests v { p with db := { p.db with storage } } served :=
  h.relog p.db.nextSequence (hsame.stores.trans h.stores) (by rw [hsame.entries]; exact h.entries)
    (by rw [hsame.entries]; exact h.shows)

theorem Quiet.move {db : Db} {handler : Handler} (h : Quiet lib queue s)
    (hactive : handler.active → s.handler.active = true)
    (hrunning : handler.running → s.handler.running = true) (hreads : handler.Reads lib db) :
    Quiet lib queue { pool := { s.pool with db }, handler } :=
  ⟨fun ha => h.settled (hactive ha), fun hqueue hr => h.gated hqueue (hrunning hr), hreads⟩

theorem Quiet.done {db : Db} {result : Except CoreError CompactionResult} :
    Quiet lib queue { pool := { s.pool with db }, handler := .done result } :=
  ⟨fun h => (by cases h), fun _ h => (by cases h), trivial⟩

theorem Quiet.handle (h : Quiet lib queue s) (ht : Traced lib requests v s.pool served) {ctx : Ctx}
    (hcond : Undisturbed lib queue (.handler ctx) s) {db : Db} {handler : Handler}
    (hstep : s.handle lib requests queue ctx = some (db, handler)) :
    Traced lib requests v { s.pool with db } served ∧
      Quiet lib queue { pool := { s.pool with db }, handler } := by
  obtain ⟨pool, current⟩ := s
  have hview : current.active = true → pool.settled lib = pool.db.view :=
    fun hactive => Traced.settled_eq (h.settled hactive)
  have hev : current.active = true → pool.db.view.Evaluable := by
    intro hactive
    rw [← hview hactive, ← ht.shows]
    exact logView_evaluable _
  have hreads := h.reads
  rw [Shrinking.handle] at hstep
  cases current with
  | idle =>
    obtain ⟨hfresh, hnone⟩ := hcond
    dsimp only at hstep
    split at hstep
    · cases hstep
    next hgate =>
      cases hstep
      have hfree : queue = none → ∀ i, (pool.phase i).gate? = none := by
        rintro rfl
        obtain ⟨hshared, hexclusive⟩ :=
          Bool.or_eq_false_iff.1 (Bool.eq_false_iff.2 hgate : (pool.gateHeld .shared || _) = false)
        exact Pool.gate_eq_none hshared hexclusive
      refine ⟨ht, fun _ i gate w hi => ?_, fun hqueue _ => hfree hqueue, hfresh.zero, ?_⟩
      · cases hqueue : queue with
        | none =>
          have hgate' := hfree hqueue i
          rw [hi] at hgate'
          cases hgate'
        | some q => exact hnone (by rw [hqueue]; rfl) i gate w hi
      · exact flatMap_cellRecords pool.db.toStore 0
  | collecting names records =>
    obtain ⟨hfresh, hrecords⟩ := hreads
    cases names with
    | nil =>
      cases hstep
      refine ⟨ht, h.move (fun _ => rfl) (fun _ => rfl) ?_⟩
      rw [flatMap_nil, append_nil] at hrecords
      rw [Handler.Reads, hrecords]
      exact builds_collections ht.keyed ht.indexable hfresh
    | cons name names =>
      dsimp only at hstep
      split at hstep
      · cases hstep
      · cases hstep
        refine ⟨ht, h.move (fun _ => rfl) (fun _ => rfl) ⟨hfresh, ?_⟩⟩
        rw [flatMap_cons] at hrecords
        rw [cellRecords_of_fresh hcond, append_assoc, hrecords]
  | channels records =>
    cases hstep
    refine ⟨ht, h.move (fun _ => rfl) (fun _ => rfl) ?_⟩
    exact Builds.append hreads (sound_snapshotChannels _) (foldl_snapshotChannels (hev rfl) _)
  | hooks records =>
    have hbuilds := Builds.append hreads (sound_snapshotHooks pool.db.toStore)
      (foldl_snapshotHooks (hev rfl) _ _)
    dsimp only at hstep
    rw [if_pos ht.stores] at hstep
    cases hstep
    exact ⟨ht, h.move (fun _ => rfl) (fun _ => rfl) (builds_queue hbuilds queue)⟩
  | counting records =>
    dsimp only at hstep
    split at hstep
    next e storage hread =>
      cases hstep
      exact ⟨ht.fault (LogStore.read_cases hread).1, .done⟩
    next last storage hread =>
      cases hstep
      exact ⟨ht.fault (LogStore.read_cases hread).1, h.move (fun _ => rfl) (fun _ => rfl) hreads⟩
  | replaying records currentLast =>
    dsimp only at hstep
    split at hstep
    next e storage hread =>
      cases hstep
      exact ⟨ht.fault (LogStore.read_cases hread).1, .done⟩
    next before storage hread =>
      have ht' := ht.fault (LogStore.read_cases hread).1
      split at hstep
      next e hencode =>
        cases hstep
        exact ⟨ht', .done⟩
      next entries hencode =>
        cases hstep
        refine ⟨ht', h.move (fun _ => rfl) (fun _ => rfl) ⟨fun entry he => ?_, ?_⟩⟩
        · have hholds := holds_encodeEntries length_range' hencode hcond
          obtain ⟨record, hr, hdecode⟩ := hholds.exists_record he
          exact ⟨Db.encodeSnapshot_positive hencode entry he, record, hdecode,
            hreads.sound record hr⟩
        · have hholds := holds_encodeEntries length_range' hencode hcond
          rw [logView, hholds.foldl_applyEntry, hreads.view]
  | installing before currentLast entries =>
    dsimp only at hstep
    rcases pool.db.storage.snapshot_cases entries with ⟨e, he, hsame⟩ | ⟨hok, hlog, hstores, -⟩
    · rcases hs : pool.db.storage.snapshot entries with ⟨_ | _, storage⟩
      · rw [hs] at hstep hsame
        cases hstep
        exact ⟨ht.fault hsame, .done⟩
      · rw [hs] at he
        cases he
    · rcases hs : pool.db.storage.snapshot entries with ⟨_ | _, storage⟩
      · rw [hs] at hok
        cases hok
      · rw [hs] at hstep hlog hstores
        subst hlog
        cases hstep
        refine ⟨?_, h.move (fun h => by cases h) (fun _ => rfl) trivial⟩
        exact ht.relog pool.db.nextSequence (hstores.trans ht.stores) hreads.1
          (hreads.2.trans (hview rfl).symm)
  | resetting before currentLast entries =>
    cases hstep
    exact ⟨ht.relog _ ht.stores ht.entries ht.shows, .done⟩
  | done result => cases hstep

end Handle

/-- Whatever the calls and the handler do in a run of undisturbed steps, a database that is built
from the log in the end shows what the running one shows, which is what the calls do that returned
successfully. A call that answered `false` had nothing to do. -/
theorem aofshrink_keeps_writes {queue : Option Queue} {requests : Fin n → Request} {db : Db}
    (hdb : Mirrored lib db) {schedule : List (Action n)} {s : Shrinking n}
    (hmeet : StepsMeet (Shrinking.step lib requests queue) (Undisturbed lib queue) schedule
      (.start db))
    (hrun : runSteps (Shrinking.step lib requests queue) schedule (.start db) = some s)
    (hdone : ∀ i, ∃ result, s.pool.phase i = .done result) {ctx : Ctx} {storage : LogStore}
    {config : Config} (hfaults : storage.faults = [])
    (hlog : storage.entries = s.pool.db.storage.entries) :
    ∃ (served : List (Fin n × Ctx)) (db' : Db), (build lib ctx storage config).1 = .ok db' ∧
      db'.view.live ctx.nowMs = s.pool.db.view.live ctx.nowMs ∧
      s.pool.db.view = outcome lib requests served db.view ∧
      (served.map Prod.fst).Nodup ∧
      ∀ i a, s.pool.phase i = .done (.ok a) → i ∈ served.map Prod.fst ∨ a = .bool false := by
  have hinv : ∃ served, Traced lib requests db.view s.pool served ∧ Quiet lib queue s := by
    refine @runSteps_invariant _ _ _ _ (fun s => ∃ served,
      Traced lib requests db.view s.pool served ∧ Quiet lib queue s) ?_ schedule _ s ?_ hmeet hrun
    · rintro action s s' ⟨served, ht, hq⟩ hcond hstep
      cases action with
      | call i ctx =>
        obtain ⟨hentering, pool, hpool, rfl⟩ := Shrinking.step_call hstep
        obtain ⟨served', ht'⟩ := ht.step hcond.1 hpool
        exact ⟨served', ht', hq.call hcond hentering hpool⟩
      | handler ctx =>
        obtain ⟨⟨db', handler⟩, hhandle, rfl⟩ := Option.map_eq_some_iff.1 hstep
        exact ⟨served, hq.handle ht hcond hhandle⟩
    · exact ⟨[], .start hdb, nofun, fun _ => nofun, trivial⟩
  obtain ⟨served, ht, -⟩ := hinv
  have hsettled : s.pool.settled lib = s.pool.db.view := by
    refine Traced.settled_eq fun i gate w hi => ?_
    obtain ⟨result, hresult⟩ := hdone i
    cases hi.symm.trans hresult
  have hentries := ht.entries
  have hshows := ht.shows.trans hsettled
  rw [← hlog] at hentries hshows
  obtain ⟨records, hholds, hsound⟩ := exists_holds fun entry he => (hentries entry he).2
  obtain ⟨db', hbuild, -, htrimmed⟩ := @build_of_holds lib records ctx storage hfaults config hholds
    (fun entry he => (hentries entry he).1) fun record hr => (hsound record hr).replayable
  refine ⟨served, db', hbuild, ?_, hsettled.symm.trans ht.order, ht.once, ht.answered⟩
  rw [htrimmed.live_eq, foldl_applyRecord_of_absolute (fun r hr => (hsound r hr).absolute) _ _ 0,
    ← hholds.foldl_applyEntry]
  exact congrArg (View.live ctx.nowMs) hshows

/-! ### A run with and one without a loss -/

def isFresh (now : Nat) (s : Store) : Bool :=
  s.collections.toList.all fun cell => cell.2.objects.toList.all fun object =>
    !isExpired now object.2

theorem fresh_of_isFresh {now : Nat} (h : isFresh now s) : Fresh now s.view := by
  intro c id object hget
  rw [View.get, Store.collections_view] at hget
  cases hc : s.collections[c]? with
  | none =>
    rw [hc] at hget
    cases hget
  | some cell =>
    rw [hc] at hget
    have hcell := all_eq_true.1 h (c, cell)
      (ExtTreeMap.mem_toList_iff_getElem?_eq_some.2 hc)
    have hobject := all_eq_true.1 hcell (id, object)
      (ExtTreeMap.mem_toList_iff_getElem?_eq_some.2 hget)
    simpa using hobject

namespace OneTruck

open Sample

def truck : Fin 1 → Request := fun _ => setIdle "fleet" "truck"

def set : List (Action 1) := replicate 9 (.call 0 sampleCtx)

def handle (steps : Nat) : List (Action 1) := replicate steps (.handler sampleCtx)

theorem readable (record : LogRecord) : record.Readable sampleLib :=
  fun _ => decodeLogRecord_of_toJson sample_lossless

theorem mirrored : Mirrored sampleLib { storage := {} } where
  stores := rfl
  keyed := Store.keyed_empty
  indexable := Indexable.of_empty rfl
  entries := fun _ he => absurd he not_mem_nil
  shows := rfl

def isUndisturbed : Action 1 → Shrinking 1 → Bool
  | .call i _, s => match s.pool.phase i with
    | .reserved _ w _ => w.effect.indexable sampleLib && !s.handler.active
    | _ => true
  | .handler ctx, s => isFresh ctx.nowMs s.pool.db.toStore && match s.pool.phase 0 with
    | .appended _ _ => false
    | _ => true

theorem undisturbed_of_isUndisturbed {queue : Option Queue} {action : Action 1} {s : Shrinking 1}
    (h : isUndisturbed action s) : Undisturbed sampleLib queue action s := by
  cases action with
  | call i ctx =>
    have hboth : ∀ gate w sequences, s.pool.phase i = .reserved gate w sequences →
        w.effect.indexable sampleLib = true ∧ s.handler.active = false := by
      intro gate w sequences hi
      rw [isUndisturbed, hi] at h
      simpa using h
    refine ⟨fun gate w sequences hi => ⟨(hboth gate w sequences hi).1, fun r _ => readable r⟩, ?_⟩
    intro _ hactive gate w sequences hi
    cases hactive.symm.trans (hboth gate w sequences hi).2
  | handler ctx =>
    obtain ⟨hfresh, happended⟩ := (Bool.and_eq_true _ _).mp h
    have hnone : ∀ i gate w, s.pool.phase i ≠ .appended gate w := by
      intro i gate w hi
      rw [Subsingleton.elim 0 i, hi] at happended
      cases happended
    rw [Undisturbed]
    split
    · exact ⟨fresh_of_isFresh hfresh, fun _ => hnone⟩
    · exact fresh_of_isFresh hfresh
    · exact fun record _ => readable record
    · trivial

/-- A SET, and then a compaction by a server with an empty webhook queue. -/
theorem kept_truck :
    ∃ (s : Shrinking 1) (served : List (Fin 1 × Ctx)) (db : Db),
      runSteps (Shrinking.step sampleLib truck (some ∅)) (set ++ handle 9)
        (.start { storage := {} }) = some s ∧
      (build sampleLib sampleCtx { entries := s.pool.db.storage.entries } {}).1 = .ok db ∧
      db.view.live 1000 = s.pool.db.view.live 1000 ∧
      s.pool.db.view = outcome sampleLib truck served {} ∧ 0 ∈ served.map Prod.fst ∧
      (s.pool.db.view.get "fleet" "truck").isSome = true := by
  have hmeet : StepsMeet (Shrinking.step sampleLib truck (some ∅)) (Undisturbed sampleLib (some ∅))
      (set ++ handle 9) (.start { storage := {} }) :=
    stepsMeet_of_checkSteps isUndisturbed (fun _ _ => undisturbed_of_isUndisturbed) rfl
  obtain ⟨s, hs⟩ : ∃ s, runSteps (Shrinking.step sampleLib truck (some ∅)) (set ++ handle 9)
      (.start { storage := {} }) = some s := ⟨_, rfl⟩
  have hphase : s.pool.phase 0 = .done (.ok (.bool true)) := by
    have := congrArg (Option.map fun s : Shrinking 1 => s.pool.phase 0) hs
    exact Option.some.inj this.symm
  have hdone : ∀ i, ∃ result, s.pool.phase i = .done result := by
    intro i
    rw [Subsingleton.elim i 0]
    exact ⟨_, hphase⟩
  have hstored : (s.pool.db.view.get "fleet" "truck").isSome = true := by
    have := congrArg (Option.map fun s : Shrinking 1 =>
      (s.pool.db.view.get "fleet" "truck").isSome) hs
    exact Option.some.inj this.symm
  obtain ⟨served, db, hbuild, hview, houtcome, -, hserved⟩ := @aofshrink_keeps_writes sampleLib 1
    (some ∅) truck { storage := {} } mirrored (set ++ handle 9) s hmeet hs hdone sampleCtx
    { entries := s.pool.db.storage.entries } {} rfl rfl
  refine ⟨s, served, db, hs, hbuild, hview, houtcome, ?_, hstored⟩
  rcases hserved 0 _ hphase with hmem | hfalse
  · exact hmem
  · cases hfalse

/-- The handler has collected its records when a SET stores, logs and acknowledges a truck; then it
replaces the log, and the truck is gone after a restart. -/
theorem lost_truck :
    ((runSteps (Shrinking.step sampleLib truck (some ∅)) (handle 6 ++ set ++ handle 2)
      (.start { storage := {} })).map fun s =>
        (s.pool.phase 0, s.pool.db.view.get "fleet" "truck" |>.isSome,
          (build sampleLib sampleCtx { entries := s.pool.db.storage.entries } {}).1.map fun db =>
            db.view.get "fleet" "truck")) =
      some (.done (.ok (.bool true)), true, .ok none) := rfl

end OneTruck

end LatLng.Concurrent
