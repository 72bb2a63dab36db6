import LatLng.Core.Admin

/-! A follower: it compares checksums with its leader, starts over when they differ, and
then applies the leader's entries batch by batch. -/

namespace LatLng.Replication

open LatLng.Core Storage

variable (lib : Lib) (md5 : List UInt8 → List UInt8)

/-- Decides where to resume: behind the follower's last entry if the leader has the same
entries up to there, and otherwise at the start, with an empty state. -/
def followCheck (leader follower : Db) : Except CoreError Nat × Db :=
  let localLast := follower.nextSequence
  if localLast = 0 then (.ok 0, follower)
  else
    match follower.checksumRange md5 1 localLast with
    | (.error e, follower) => (.error e, follower)
    | (.ok localChecksum, follower) =>
      match (leader.checksumRange md5 1 localLast).1 with
      | .error e => (.error e, follower)
      | .ok remoteChecksum =>
        if localChecksum = remoteChecksum then (.ok localLast, follower)
        else match follower.resetReplicationState with
          | (.error e, follower) => (.error e, follower)
          | (.ok (), follower) => (.ok 0, follower)

/-- The answers of one stream. It ends with the first error, or when the leader has nothing
more to send and lets the follower wait; `fuel` bounds the number of answers. -/
def followStream (batchSize : Nat) (ctx : Ctx) (leader : Db) :
    Nat → Nat → Db → Except CoreError Unit × Db
  | 0, _, follower => (.ok (), follower)
  | fuel + 1, cursor, follower =>
    match (leader.storageEntriesAfter cursor batchSize).1 with
    | .error e => (.error e, follower)
    | .ok [] => (.ok (), follower)
    | .ok (first :: rest) =>
      match follower.applyReplicatedEntries lib ctx (first :: rest) with
      | (.error e, follower) => (.error e, follower)
      | (.ok cursor, follower) => followStream batchSize ctx leader fuel cursor follower

/-- One round of the follow procedure against a leader that does not change. Every answer
takes at least one entry, so the leader's log is exhausted before the fuel is. -/
def followOnce (batchSize : Nat) (ctx : Ctx) (leader follower : Db) : Except CoreError Unit × Db :=
  match followCheck md5 leader follower with
  | (.error e, follower) => (.error e, follower)
  | (.ok resume, follower) =>
    followStream lib batchSize ctx leader (leader.storage.entries.length + 1) resume follower

def follow (batchSize : Nat) (ctxs : Nat → Ctx) (leader follower : Db) : Nat → Db
  | 0 => follower
  | n + 1 => (followOnce lib md5 batchSize (ctxs n) leader (follow batchSize ctxs leader follower n)).2

/-! ### Leader and follower side by side -/

structure Pair where
  leader : Db
  follower : Db

inductive Event where
  | lead (ctx : Ctx) (call : Call)
  | check
  | fetch (ctx : Ctx) (batchSize : Nat)

def Pair.step (p : Pair) : Event → Pair
  | .lead ctx call => { p with leader := (p.leader.call lib ctx call).2 }
  | .check => { p with follower := (followCheck md5 p.leader p.follower).2 }
  | .fetch ctx batchSize =>
    match (p.leader.storageEntriesAfter p.follower.nextSequence batchSize).1 with
    | .error _ => p
    | .ok entries => { p with follower := (p.follower.applyReplicatedEntries lib ctx entries).2 }

def Pair.run (p : Pair) (events : List Event) : Pair := events.foldl (Pair.step lib md5) p

theorem storageEntriesAfter_ok {leader : Db} {after size : Nat} {entries : List StorageEntry}
    (h : (leader.storageEntriesAfter after size).1 = .ok entries) :
    entries = (leader.storage.entries.filter (after < ·.sequence)).take (max size 1) := by
  rw [Db.storageEntriesAfter] at h
  generalize hr : leader.storage.read (fun entries =>
    .ok ((entries.filter fun entry => after < entry.sequence).take (max size 1))) = r at h
  obtain ⟨r, s⟩ := r
  obtain ⟨-, ⟨e, rfl⟩ | rfl⟩ := LogStore.read_cases hr
  · cases h
  · exact (Except.ok.inj h).symm

end LatLng.Replication
