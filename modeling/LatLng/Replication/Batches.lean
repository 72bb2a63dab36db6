import LatLng.Core.Faithful
import LatLng.Core.ReplayLive
import LatLng.Core.Restart
import LatLng.Replication.Follow

/-! Batches of a leader's log on a follower: what is left of a batch that fails, and what becomes of
objects whose deadline passes between two batches. -/

namespace LatLng.Replication

open LatLng.Core Geo Storage List

variable {lib : Lib} {md5 : List UInt8 → List UInt8}

/-! ### A batch that fails -/

def Untouched (db db' : Db) : Prop :=
  db' = { db with storage := { db.storage with faults := db'.storage.faults } }

def Accepts (db : Db) (entries : List StorageEntry) : Prop :=
  (∃ first, entries.head? = some first ∧ first.sequence = db.nextSequence + 1) ∧
    (db.storage.appendBatch entries).1 = .ok ()

/-- A failed batch leaves the follower as it was, exactly if every entry of a batch that gets into
the log can be applied. On a backend that works, every batch that comes next is then met as if the
failed one had never been there. -/
theorem failed_batch_untouched_iff (db : Db) (ctx : Ctx) (entries : List StorageEntry) :
    ((db.applyReplicatedEntries lib ctx entries).1.isOk = false →
      Untouched db (db.applyReplicatedEntries lib ctx entries).2 ∧
      (db.storage.faults = [] → ∀ ctx' batch,
        (db.applyReplicatedEntries lib ctx entries).2.applyReplicatedEntries lib ctx' batch =
          db.applyReplicatedEntries lib ctx' batch)) ↔
    (Accepts db entries → ∀ entry ∈ entries, Restorable lib entry) := by
  rcases db.applyReplicatedEntries_cases lib ctx entries with
    ⟨rfl, hr⟩ | ⟨hrefused, e, storage, hstorage, hfaults, hr⟩ | ⟨haccepts, hne, storage, hlog, -, -, hr⟩
  · refine iff_of_true (fun h => ?_) fun _ entry he => absurd he not_mem_nil
    rw [hr] at h
    cases h
  · refine iff_of_true (fun _ => ?_) fun haccepts => absurd haccepts hrefused
    rw [hr]
    refine ⟨congrArg (fun storage => ({ db with storage } : Db)) hstorage, fun hnone ctx' batch => ?_⟩
    -- without faults there is no script that could differ
    have hsame : storage = db.storage := by
      rw [hstorage, hfaults hnone, ← hnone]
    rw [hsame]
  · have hiff := @applyPersistedEntries_isOk_iff lib ctx.nowMs db.toStore entries
    rw [hr, Db.appliedBatch]
    rcases hs : applyPersistedEntries lib ctx.nowMs db.toStore entries with ⟨e | ⟨⟩, store⟩
    · have hfails : ¬ ∀ entry ∈ entries, Restorable lib entry := by
        rw [← hiff, hs]
        exact fun h => by cases h
      refine iff_of_false (fun h => ?_) fun h => hfails (h haccepts)
      -- the batch is in the log although the call failed
      have hsame : storage.entries = db.storage.entries := congrArg (·.storage.entries) (h rfl).1
      rw [hlog] at hsame
      exact hne (append_right_eq_self.1 hsame)
    · rw [hs] at hiff
      exact iff_of_true (fun h => by cases h) fun _ => hiff.1 rfl

open Sample in
/-- An entry that cannot be decoded: the call fails, but the entry is in the log, and neither the
same batch nor a corrected one is taken after it. -/
theorem undecodable_entry_stays :
    let follower : Db := { storage := {} }
    let batch (command : List UInt8) : List StorageEntry := [{ sequence := 1, timestampNs := 0, command }]
    let failed := follower.applyReplicatedEntries sampleLib sampleCtx (batch [0])
    failed.1.isOk = false ∧ failed.2.storage.entries = batch [0] ∧ failed.2.nextSequence = 0 ∧
      (follower.applyReplicatedEntries sampleLib sampleCtx (batch [3])).1.isOk = true ∧
      (failed.2.applyReplicatedEntries sampleLib sampleCtx (batch [3])).1.isOk = false :=
  ⟨rfl, rfl, rfl, rfl, rfl⟩

/-! ### Deadlines that pass between batches -/

variable (lib) in
/-- A database whose log shows its state, up to objects that are past their deadline, and can be
replayed by others. -/
structure Shown (now : Nat) (db : Db) : Prop extends LiveInv lib now db where
  entries : ∀ entry ∈ db.storage.entries, Applicable lib entry

variable {now : Nat}

theorem LiveInv.trimmed {db : Db} (h : LiveInv lib now db) :
    Trimmed now (logView lib db.storage.entries) db.view := by
  obtain ⟨full, hreplays, htrim⟩ := h.log
  obtain ⟨records, hholds, -, hfold⟩ := hreplays.records
  have hfull : logView lib db.storage.entries = full := by
    rw [logView, hholds.foldl_applyEntry, hfold]
  rw [hfull]
  exact htrim

variable (lib) in
def commandsOf (entries : List StorageEntry) : List Command :=
  entries.filterMap fun entry => match decodeLogRecord lib entry.command with
    | .ok record => record.command?
    | .error _ => none

theorem Holds.commandsOf {entries : List StorageEntry} {records : List LogRecord}
    (h : Holds lib entries records) :
    commandsOf lib entries = records.filterMap LogRecord.command? := by
  have hmap : Replication.commandsOf lib entries =
      (entries.map fun entry => decodeLogRecord lib entry.command).filterMap fun result =>
        match result with
        | .ok record => record.command?
        | .error _ => none := by
    rw [filterMap_map]
    rfl
  rw [hmap, h, filterMap_map]
  rfl

namespace Shown

variable {now : Nat} {db : Db} (h : Shown lib now db)

include h

theorem mono {later : Nat} (hle : now ≤ later) : Shown lib later db :=
  ⟨h.toLiveInv.mono hle, h.entries⟩

theorem unlogged {db' : Db} (hun : db.Unlogged db') : Shown lib now db' := by
  refine ⟨h.toLiveInv.unlogged hun, ?_⟩
  rw [hun.log.entries]
  exact h.entries

theorem finish (ctx : Ctx) {plan : Plan} {aim : Aim} (hread : plan.Readable lib db)
    (hplan : plan.Intended lib db.view aim)
    (hres : aim = .plain ∨ ∀ e, (db.finish lib ctx plan).1 ≠ .error (.index e)) :
    Shown lib now (db.finish lib ctx plan).2 := by
  refine ⟨h.toLiveInv.finish ctx hread hplan hres, ?_⟩
  refine hplan.keeps (I := fun db' => ∀ entry ∈ db'.storage.entries, Applicable lib entry) hres
    h.entries (fun _ hun => (h.unlogged hun).entries) fun w db' hwrite hw hidx hp => ?_
  rcases hp with ⟨-, hun⟩ | ⟨-, entries, hlogged, hencode⟩
  · exact (h.unlogged hun).entries
  · have hcommands := w.batch.commands_numbered lib
      (range' (db.nextSequence + 1) w.batch.count)
    have hsound := @sound_of_commands lib _
      (by rw [hcommands]; exact hw.intends.replayable hidx)
      (by rw [hcommands]; exact hw.intends.absolute)
    intro entry he
    rw [hlogged.log] at he
    rcases mem_append.1 he with he | he
    · exact h.entries entry he
    · exact ⟨hlogged.positive entry he,
        (encodeEntries_written (hread w hwrite) hsound hencode entry he).decode⟩

theorem walk {ctx : Ctx} (hread : ∀ mid, Relation.ReflTransGen (Db.Walks lib ctx) db mid →
      ∀ c id, (mid.delExclusive lib ctx c id).Readable lib mid) :
    (∀ c pattern, Shown lib now (db.pdel lib ctx c pattern).2) ∧
      ∀ nowMs max, Shown lib now (db.expireDue lib ctx nowMs max).2 :=
  Db.walk_keeps hread
    (fun mid c id hr hmid => hmid.finish ctx hr (mid.delExclusive_intended lib ctx c id) (.inl rfl))
    (fun _ _ hmid => ⟨⟨hmid.stores, hmid.keyed, hmid.log⟩, hmid.entries⟩) h

theorem batch {ctx : Ctx} (hle : now ≤ ctx.nowMs)
    {entries : List StorageEntry} (hentries : ∀ entry ∈ entries, Applicable lib entry)
    (happlies : AppliesAll lib 0 db.view (commandsOf lib entries)) :
    Shown lib ctx.nowMs (db.applyReplicatedEntries lib ctx entries).2 := by
  have hnow := h.mono hle
  rcases db.applyReplicatedEntries_cases lib ctx entries with
    ⟨-, hr⟩ | ⟨-, e, storage, hstorage, -, hr⟩ | ⟨-, -, storage, hlog, hstores, -, hr⟩
  · rw [hr]
    exact hnow
  · rw [hr]
    refine hnow.unlogged ⟨rfl, rfl, ⟨?_, ?_⟩, le_rfl⟩ <;> rw [hstorage]
  · obtain ⟨hok, hview⟩ := applyPersistedEntries_sound (fun entry he => (hentries entry he).2)
      ctx.nowMs db.toStore
    have hkeyed := h.keyed.applyPersistedEntries lib ctx.nowMs entries
    obtain ⟨records, hholds, hsound⟩ := exists_holds fun entry he => (hentries entry he).2
    have hcommands := Holds.commandsOf hholds
    have hfold : ∀ v : View, entries.foldl (View.applyEntry lib) v =
        (commandsOf lib entries).foldl (View.apply lib 0) v := by
      intro v
      rw [hholds.foldl_applyEntry, foldl_applyRecord, hcommands]
    rw [hr, Db.appliedBatch]
    rcases hs : applyPersistedEntries lib ctx.nowMs db.toStore entries with ⟨r, store⟩
    rw [hs] at hok hview hkeyed
    subst hok
    obtain ⟨full, hreplays, htrim⟩ := hnow.log
    refine ⟨⟨hstores.trans h.stores, hkeyed.gcCollections ctx.nowMs,
      entries.foldl (View.applyEntry lib) full, ?_, ?_⟩, ?_⟩
    · rw [hlog]
      refine hreplays.append (fun entry he => (hentries entry he).1) hholds ?_ fun later => ?_
      · intro c hc
        obtain ⟨record, hr, hrecord⟩ := mem_filterMap.1 hc
        cases record with
        | command c' =>
          cases hrecord
          exact (hsound _ hr).replayable
        | _ => cases hrecord
      · rw [← foldl_applyRecord, hholds.foldl_applyEntry]
        exact foldl_applyRecord_of_absolute (fun r hr => (hsound r hr).absolute) full later 0
    · -- first the entries, then the objects that are due
      have hafter : Trimmed ctx.nowMs (entries.foldl (View.applyEntry lib) full) store.view := by
        rw [hview, hfold, hfold]
        exact htrim.applyAll happlies
      exact hafter.trans (hkeyed.trimmed_gc ctx.nowMs)
    · rw [hlog]
      intro entry he
      rcases mem_append.1 he with he | he
      · exact h.entries entry he
      · exact hentries entry he

end Shown

variable (lib) in
/-- The histories in question: calls and sweeps on the leader, none of which fails on a geometry it
has already logged and whose records are read back as they were written, and batches on the follower
in which every entry that sets or clears a deadline finds its object. -/
def Pair.Keeps (p : Pair) : Event → Prop
  | .lead ctx call => call.Readable lib p.leader ctx ∧ match call with
    | .request request => ∀ e, (p.leader.perform lib ctx request).1 ≠ .error (.index e)
    | .pdel _ _ | .expireDue _ _ | .gc => True
    | _ => False
  | .fetch _ batchSize => ∀ entries,
    (p.leader.storageEntriesAfter p.follower.nextSequence batchSize).1 = .ok entries →
      AppliesAll lib 0 p.follower.view (commandsOf lib entries)
  | _ => False

def Event.time : Event → Nat
  | .lead ctx _ => ctx.nowMs
  | .check => 0
  | .fetch ctx _ => ctx.nowMs

variable (lib md5) in
def Pair.Timely (now : Nat) (p : Pair) (later : Nat) : List Event → Prop
  | [] => now ≤ later
  | event :: events => now ≤ event.time ∧ p.Keeps lib event ∧
    (p.step lib md5 event).Timely event.time later events

variable (lib) in
structure Pair.Shown (now : Nat) (p : Pair) : Prop where
  leader : Replication.Shown lib now p.leader
  follower : Replication.Shown lib now p.follower

theorem Pair.Shown.step {p : Pair} (h : p.Shown lib now)
    {event : Event} (hle : now ≤ event.time) (hkeeps : p.Keeps lib event) :
    (p.step lib md5 event).Shown lib event.time := by
  have hleader := h.leader.mono hle
  cases event with
  | lead ctx call =>
    refine ⟨?_, h.follower.mono hle⟩
    obtain ⟨hread, hkeeps⟩ := hkeeps
    cases call with
    | request request =>
      exact hleader.finish ctx hread (request.plan_intended lib p.leader ctx) (.inr hkeeps)
    | pdel collection pattern => exact (hleader.walk hread).1 collection pattern
    | expireDue nowMs max => exact (hleader.walk hread).2 nowMs max
    | gc => exact ⟨h.leader.toLiveInv.gc hle, h.leader.entries⟩
    | _ => exact hkeeps.elim
  | check => exact hkeeps.elim
  | fetch ctx batchSize =>
    rw [Pair.step]
    cases hfetch : (p.leader.storageEntriesAfter p.follower.nextSequence batchSize).1 with
    | error e => exact ⟨hleader, h.follower.mono hle⟩
    | ok entries =>
      refine ⟨hleader, h.follower.batch hle (fun entry he => ?_) (hkeeps entries hfetch)⟩
      rw [storageEntriesAfter_ok hfetch] at he
      exact h.leader.entries entry (mem_filter.1 (mem_of_mem_take he)).1

theorem Pair.Shown.run {later : Nat} {p : Pair}
    {events : List Event} (h : p.Shown lib now) (hrun : p.Timely lib md5 now later events) :
    (p.run lib md5 events).Shown lib later := by
  induction events generalizing now p with
  | nil => exact ⟨h.leader.mono hrun, h.follower.mono hrun⟩
  | cons event events ih => exact ih (h.step hrun.1 hrun.2.1) hrun.2.2

theorem Shown.build {ctx : Ctx} {storage : LogStore} {config : Config} {db : Db}
    (hempty : storage.entries = []) (hstores : storage.storesCommandLog)
    (hbuild : (build lib ctx storage config).1 = .ok db) : Shown lib ctx.nowMs db := by
  refine ⟨LiveInv.build hempty hstores hbuild, fun entry he => ?_⟩
  obtain ⟨hstorage, -⟩ := build_empty hempty hbuild
  rw [hstorage, storage.sameLog_fault.entries, hempty] at he
  cases he

/-- A leader and a follower that have processed the same entries show the same collections, fences
and objects, apart from objects that are past their deadline. -/
theorem follower_agrees_on_live {ctx : Ctx}
    {leaderStorage followerStorage : LogStore} {leaderConfig followerConfig : Config}
    {leader follower : Db} (hleader : leaderStorage.entries = [])
    (hfollower : followerStorage.entries = []) (hstores : leaderStorage.storesCommandLog)
    (hstores' : followerStorage.storesCommandLog)
    (hbuild : (build lib ctx leaderStorage leaderConfig).1 = .ok leader)
    (hbuild' : (build lib ctx followerStorage followerConfig).1 = .ok follower)
    {events : List Event} {later : Nat}
    (hrun : (Pair.mk leader follower).Timely lib md5 ctx.nowMs later events)
    (hlog : ((Pair.mk leader follower).run lib md5 events).follower.storage.entries =
      ((Pair.mk leader follower).run lib md5 events).leader.storage.entries) :
    ((Pair.mk leader follower).run lib md5 events).follower.view.live later =
      ((Pair.mk leader follower).run lib md5 events).leader.view.live later := by
  have hstart : (Pair.mk leader follower).Shown lib ctx.nowMs :=
    ⟨.build hleader hstores hbuild, .build hfollower hstores' hbuild'⟩
  have hend := hstart.run hrun
  have hfull := (LiveInv.trimmed hend.follower.toLiveInv).live_eq
  rw [hfull, hlog, (LiveInv.trimmed hend.leader.toLiveInv).live_eq]

namespace Parked

open Sample

def parked : LogRecord :=
  .command (.setPersisted
    { collection := "fleet", id := "truck", object := .string "idle", fields := []
      expiresAtMs := some 2000 })

def parkedJson : LogRecord → Except String (List UInt8)
  | .command (.setPersisted ⟨"fleet", "truck", .string "idle", [], some 2000⟩) => .ok [1]
  | .command (.persist "fleet" "truck") => .ok [2]
  | _ => .error "not a sample record"

def parkedCodec : Codec where
  toJson := parkedJson
  jsonRecord
    | [1] => some parked
    | [2] => some (.command (.persist "fleet" "truck"))
    | _ => none
  bincodeRecord := fun _ => none
  jsonCommand := fun _ => none
  bincodeCommand := fun _ => .error "not a sample record"

theorem parked_lossless : parkedCodec.Lossless := by
  intro record payload h
  change parkedJson record = .ok payload at h
  unfold parkedJson at h
  split at h <;> cases h <;> rfl

def parkedLib : Lib := { sampleLib with codec := parkedCodec }

abbrev clock (nowMs : Nat) : Ctx where
  nowMs := nowMs
  nowNs := 0
  order := id
  order_perm := List.Perm.refl

def park : Event := .lead (clock 1000) (.request (.set
  { collection := "fleet", id := "truck", object := .string "idle", fields := []
    expireSeconds := some 1, condition := .always }))

def keep (nowMs : Nat) : Event := .lead (clock nowMs) (.request (.persist "fleet" "truck"))

def fetch (nowMs : Nat) : Event := .fetch (clock nowMs) 16

def fresh : Pair := ⟨{ storage := {} }, { storage := {} }⟩

/-- The deadline is cleared in time, and both sides show the truck after it. -/
theorem kept_in_time :
    (fresh.run parkedLib id [park, fetch 1100, keep 1500, fetch 1600]).follower.view.live 3000 =
      (fresh.run parkedLib id [park, fetch 1100, keep 1500, fetch 1600]).leader.view.live 3000 := by
  have hreadable := @Call.Readable.of_lossless parkedLib parked_lossless
  refine @follower_agrees_on_live parkedLib id (clock 1000) {} {} {} {} { storage := {} }
    { storage := {} } rfl rfl rfl rfl rfl rfl [park, fetch 1100, keep 1500, fetch 1600] 3000 ?_ rfl
  refine ⟨le_rfl, ⟨hreadable _ _ _, fun e => nofun⟩, by decide, fun entries hentries => ?_,
    by decide, ⟨hreadable _ _ _, fun e => nofun⟩, by decide, fun entries hentries => ?_,
    (by decide : 1600 ≤ 3000)⟩
  · cases hentries
    exact ⟨trivial, trivial⟩
  · cases hentries
    exact ⟨rfl, trivial⟩

/-- The follower drops the truck when its deadline has passed; the leader still has it and clears the
deadline. The entry finds nothing on the follower. -/
theorem kept_too_late :
    let p := fresh.run parkedLib id [park, fetch 3000, keep 3000, fetch 3000]
    p.follower.storage.entries = p.leader.storage.entries ∧
      (p.leader.view.get "fleet" "truck").map Object.expiresAt = some none ∧
      p.follower.view.get "fleet" "truck" = none :=
  ⟨rfl, rfl, rfl⟩

end Parked

end LatLng.Replication
