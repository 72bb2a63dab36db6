import LatLng.Lib.Schedule
import LatLng.Lib.Text
import LatLng.Core.Sample
import LatLng.Replication.Follow

/-! The replication manager of a server: FOLLOW and UNFOLLOW, and the worker that connects to the
configured target again and again. Whichever server takes the connection answers for the target;
what the worker does to the local state is recorded with the id that this server gave. -/

namespace LatLng.Replication

open LatLng.Core Storage List
open LatLng.Lib (StepsMeet runSteps runSteps_invariant stepsMeet_of_checkSteps trim)

/-! ### Status -/

inductive ReplicationRole where
  | leader
  | follower
deriving DecidableEq, Repr

structure FollowTarget where
  host : String
  port : Nat
deriving DecidableEq, Repr

structure ReplicationStatus where
  serverId : String
  role : ReplicationRole
  followTarget : Option FollowTarget
  leaderId : Option String
  caughtUp : Bool
  caughtUpOnce : Bool
  localLastSequence : Nat
  leaderLastSequence : Nat
  reconnectsTotal : Nat
  checksumMismatchesTotal : Nat
  resyncsTotal : Nat
  lastError : Option String

namespace ReplicationStatus

def leader (serverId : String) : ReplicationStatus where
  serverId := serverId
  role := .leader
  followTarget := none
  leaderId := none
  caughtUp := true
  caughtUpOnce := true
  localLastSequence := 0
  leaderLastSequence := 0
  reconnectsTotal := 0
  checksumMismatchesTotal := 0
  resyncsTotal := 0
  lastError := none

def follower (serverId : String) (target : FollowTarget) : ReplicationStatus :=
  { leader serverId with
    role := .follower, followTarget := some target, caughtUp := false, caughtUpOnce := false }

def isFollower (status : ReplicationStatus) : Bool := status.role = .follower

def effectiveReadOnly (status : ReplicationStatus) (configuredReadOnly : Bool) : Bool :=
  configuredReadOnly || status.isFollower

end ReplicationStatus

def saturatingSucc (n : Nat) : Nat := min (n + 1) (2 ^ 64 - 1)

structure RuntimeConfig where
  serverId : String
  readOnly : Bool := false
  replicationCredential : Option String := none
  followHost : Option String := none
  followPort : Option Nat := none

def isBlank (text : String) : Bool := trim text.toList = []

def configuredFollowTarget (config : RuntimeConfig) : Option FollowTarget :=
  match config.followHost, config.followPort with
  | some host, some port => if !isBlank host && 0 < port then some { host, port } else none
  | _, _ => none

def configuredReplicationCredential (config : RuntimeConfig) : Except String String :=
  match config.replicationCredential.filter fun value => !isBlank value with
  | some credential => .ok credential
  | none => .error "replication credential is not configured"

/-! ### The other side -/

structure RemoteReplicationInfo where
  serverId : String
  following : String
  leader : Bool
  lastSequence : Nat

structure StreamAnswer where
  leaderLastSequence : Nat
  entries : List StorageEntry

/-- What a server answers over one connection. After the last answer of the stream the next
request fails with `ended`. -/
structure Server where
  info : Except String RemoteReplicationInfo
  checksum : Nat → Nat → Except String (List UInt8)
  stream : Except String Unit
  answers : List (Ctx × StreamAnswer)
  ended : String

def fetchReplicationChecksum (server : Server) (first last : Nat) :
    Except String (List UInt8) := do
  let data ← server.checksum first last
  if data.length ≠ 16 then .error "replication checksum must contain exactly 16 bytes" else .ok data

def checkLeader (localServerId : String) (info : RemoteReplicationInfo) : Except String Unit :=
  if info.serverId = localServerId then .error "cannot follow self"
  else if !info.leader || info.following ≠ "" then .error "cannot follow a follower"
  else .ok ()

/-! ### One attempt -/

/-- What the worker does to the local state, and for which server. -/
inductive Touch where
  | reset (leader : String)
  | applied (leader : String) (entries : List StorageEntry)
  | failed (leader : String) (entries : List StorageEntry)

def Touch.leader : Touch → String
  | .reset leader => leader
  | .applied leader _ => leader
  | .failed leader _ => leader

structure Follower where
  status : ReplicationStatus
  db : Db

/-- How far the worker got, and what it did on the way. -/
structure Outcome (α : Type) where
  result : Except String α
  follower : Follower
  touches : List Touch := []

def Outcome.andThen {α β : Type} (o : Outcome α) (next : α → Follower → Outcome β) : Outcome β :=
  match o.result with
  | .error e => { result := .error e, follower := o.follower, touches := o.touches }
  | .ok a => { next a o.follower with touches := o.touches ++ (next a o.follower).touches }

variable (lib : Lib) (md5 : List UInt8 → List UInt8)

namespace Follower

/-- The checks before anything is compared; the id of the server is noted in the status. -/
def connect (config : RuntimeConfig) (server : Except String Server) (f : Follower) :
    Outcome (Server × RemoteReplicationInfo) :=
  let accepted : Except String (Server × RemoteReplicationInfo) := do
    let _ ← configuredReplicationCredential config
    let server ← server
    let info ← server.info
    checkLeader f.status.serverId info
    .ok (server, info)
  match accepted with
  | .error e => { result := .error e, follower := f }
  | .ok (server, info) =>
    { result := .ok (server, info)
      follower := { f with status := { f.status with
        leaderId := some info.serverId
        caughtUp := false
        caughtUpOnce := false
        localLastSequence := f.db.nextSequence
        leaderLastSequence := info.lastSequence
        lastError := none } } }

/-- Where to resume. The local state is thrown away if the server has other entries up to there. -/
def compare (server : Server) (leaderId : String) (f : Follower) : Outcome Nat :=
  let localLast := f.db.nextSequence
  if localLast = 0 then { result := .ok 0, follower := f }
  else
    match f.db.checksumRange md5 1 localLast with
    | (.error e, db) => { result := .error e.toText, follower := { f with db } }
    | (.ok localChecksum, db) =>
      match fetchReplicationChecksum server 1 localLast with
      | .error e => { result := .error e, follower := { f with db } }
      | .ok remoteChecksum =>
        if localChecksum = remoteChecksum then { result := .ok localLast, follower := { f with db } }
        else
          let status := { f.status with
            checksumMismatchesTotal := saturatingSucc f.status.checksumMismatchesTotal
            resyncsTotal := saturatingSucc f.status.resyncsTotal
            caughtUp := false }
          match db.resetReplicationState with
          | (.error e, db) =>
            { result := .error e.toText, follower := { status, db }, touches := [.reset leaderId] }
          | (.ok (), db) =>
            { result := .ok 0, follower := { status := { status with localLastSequence := 0 }, db }
              touches := [.reset leaderId] }

def noteResume (info : RemoteReplicationInfo) (localLast : Nat) (f : Follower) : Follower :=
  if info.lastSequence ≤ localLast then
    { f with status := { f.status with
        caughtUp := true
        caughtUpOnce := true
        localLastSequence := localLast
        leaderLastSequence := info.lastSequence } }
  else f

def applyAnswer (ctx : Ctx) (leaderId : String) (answer : StreamAnswer) (cursor : Nat)
    (f : Follower) : Outcome Nat :=
  if answer.entries = [] then { result := .ok cursor, follower := f }
  else
    match f.db.applyReplicatedEntries lib ctx answer.entries with
    | (.error e, db) =>
      { result := .error e.toText, follower := { f with db }
        touches := [.failed leaderId answer.entries] }
    | (.ok cursor, db) =>
      { result := .ok cursor, follower := { f with db }
        touches := [.applied leaderId answer.entries] }

/-- The check of the leader comes after its entries have been applied. -/
def noteAnswer (leaderId : String) (answer : StreamAnswer) (cursor : Nat) (f : Follower) :
    Outcome Nat :=
  if f.status.leaderId ≠ some leaderId then
    { result := .error "replication leader changed unexpectedly", follower := f }
  else
    let caughtUp : Bool := answer.leaderLastSequence ≤ cursor
    { result := .ok cursor
      follower := { f with status := { f.status with
        caughtUp
        caughtUpOnce := caughtUp || f.status.caughtUpOnce
        localLastSequence := cursor
        leaderLastSequence := answer.leaderLastSequence
        lastError := none } } }

def followStream (ended leaderId : String) :
    List (Ctx × StreamAnswer) → Nat → Follower → Outcome Unit
  | [], _, f => { result := .error ended, follower := f }
  | (ctx, answer) :: answers, cursor, f =>
    ((f.applyAnswer lib ctx leaderId answer cursor).andThen (noteAnswer leaderId answer)).andThen
      (followStream ended leaderId answers)

def openReplicationStream (server : Server) (f : Follower) : Outcome Unit :=
  { result := server.stream, follower := f }

def followOnce (config : RuntimeConfig) (server : Except String Server) (f : Follower) :
    Outcome Unit :=
  (f.connect config server).andThen fun (server, info) f =>
    (f.compare md5 server info.serverId).andThen fun localLast f =>
      ((f.noteResume info localLast).openReplicationStream server).andThen fun _ f =>
        f.followStream lib server.ended info.serverId server.answers localLast

def noteFailure (error : String) (f : Follower) : Follower :=
  { f with status := { f.status with
      caughtUp := false
      reconnectsTotal := saturatingSucc f.status.reconnectsTotal
      lastError := some error } }

end Follower

/-! ### The manager -/

/-- The server's replication state; `touches` is what the worker did since it was started. -/
structure Manager where
  config : RuntimeConfig
  follower : Follower
  worker : Option FollowTarget
  touches : List Touch := []

inductive Control where
  | attempt (server : Except String Server)
  | follow (target : FollowTarget) (server : Except String Server)
  | unfollow

def validateFollowTarget (config : RuntimeConfig) (status : ReplicationStatus)
    (server : Except String Server) : Except String Unit := do
  let _ ← configuredReplicationCredential config
  let server ← server
  let info ← server.info
  checkLeader status.serverId info

namespace Manager

def syncEffectiveReadOnly (m : Manager) : Manager :=
  { m with follower := { m.follower with db := { m.follower.db with
      config := { m.follower.db.config with
        readOnly := m.follower.status.effectiveReadOnly m.config.readOnly } } } }

def start (config : RuntimeConfig) (db : Db) : Manager :=
  let target := configuredFollowTarget config
  syncEffectiveReadOnly
    { config
      follower :=
        { status := match target with
            | some target => .follower config.serverId target
            | none => .leader config.serverId
          db }
      worker := target }

def runFollowLoop (m : Manager) (server : Except String Server) : Manager :=
  let outcome := m.follower.followOnce lib md5 m.config server
  let touches := m.touches ++ outcome.touches
  match outcome.result with
  | .ok () => { m with follower := outcome.follower, touches }
  | .error e =>
    if outcome.follower.status.isFollower then
      { m with follower := outcome.follower.noteFailure e, touches }
    else { m with follower := outcome.follower, worker := none, touches }

def follow (m : Manager) (target : FollowTarget) (server : Except String Server) : Manager :=
  if isBlank target.host || target.port = 0 then m
  else
    match validateFollowTarget m.config m.follower.status server with
    | .error _ => m
    | .ok () => syncEffectiveReadOnly
      { config := { m.config with followHost := some target.host, followPort := some target.port }
        follower := { m.follower with
          status := .follower m.follower.status.serverId target }
        worker := some target }

def unfollow (m : Manager) : Manager :=
  syncEffectiveReadOnly
    { config := { m.config with followHost := none, followPort := none }
      follower := { m.follower with status := .leader m.follower.status.serverId }
      worker := none }

def step (event : Control) (m : Manager) : Option Manager :=
  match event with
  | .attempt server => if m.worker.isSome then some (m.runFollowLoop lib md5 server) else none
  | .follow target server => some (m.follow target server)
  | .unfollow => some m.unfollow

end Manager

variable {lib md5}

/-- The exchange over the wire is the comparison of the two logs that `followCheck` makes. -/
theorem Follower.compare_eq_followCheck {leader : Db} {server : Server} {f : Follower}
    (hserver : fetchReplicationChecksum server 1 f.db.nextSequence =
      (leader.checksumRange md5 1 f.db.nextSequence).1.mapError CoreError.toText)
    (leaderId : String) :
    (f.compare md5 server leaderId).result =
        (followCheck md5 leader f.db).1.mapError CoreError.toText ∧
      (f.compare md5 server leaderId).follower.db = (followCheck md5 leader f.db).2 := by
  rw [compare, followCheck, hserver]
  split
  · exact ⟨rfl, rfl⟩
  rcases f.db.checksumRange md5 1 f.db.nextSequence with ⟨_ | localChecksum, db⟩
  · exact ⟨rfl, rfl⟩
  rcases (leader.checksumRange md5 1 f.db.nextSequence).1 with _ | remoteChecksum
  · exact ⟨rfl, rfl⟩
  simp only [Except.mapError]
  split
  · exact ⟨rfl, rfl⟩
  rcases db.resetReplicationState with ⟨_ | _, db⟩ <;> exact ⟨rfl, rfl⟩

/-! ### Staying with a leader -/

/-- Once entries of a server have been applied, the state is only touched for that server. -/
def Stays (touches : List Touch) : Prop :=
  ∀ earlier later leader entries, touches = earlier ++ .applied leader entries :: later →
    ∀ touch ∈ later, touch.leader = leader

namespace Follower

theorem touches_andThen {α β : Type} {o : Outcome α} {next : α → Follower → Outcome β}
    {P : Touch → Prop} (ho : ∀ touch ∈ o.touches, P touch)
    (hnext : ∀ a, o.result = .ok a → ∀ touch ∈ (next a o.follower).touches, P touch) :
    ∀ touch ∈ (o.andThen next).touches, P touch := by
  rw [Outcome.andThen]
  cases hr : o.result with
  | error e => exact ho
  | ok a =>
    intro touch hmem
    rcases mem_append.1 hmem with hmem | hmem
    · exact ho touch hmem
    · exact hnext a hr touch hmem

theorem touches_connect (config : RuntimeConfig) (server : Except String Server) (f : Follower) :
    (f.connect config server).touches = [] := by
  rw [connect]
  split <;> rfl

theorem touches_compare (server : Server) (leaderId : String) (f : Follower) :
    ∀ touch ∈ (f.compare md5 server leaderId).touches, touch.leader = leaderId := by
  rw [compare]
  split
  · simp
  split
  · simp
  split
  · simp
  split
  · simp
  split <;> simp [Touch.leader]

theorem touches_applyAnswer (ctx : Ctx) (leaderId : String) (answer : StreamAnswer) (cursor : Nat)
    (f : Follower) :
    ∀ touch ∈ (f.applyAnswer lib ctx leaderId answer cursor).touches, touch.leader = leaderId := by
  rw [applyAnswer]
  split
  · simp
  split <;> simp [Touch.leader]

theorem touches_noteAnswer (leaderId : String) (answer : StreamAnswer) (cursor : Nat)
    (f : Follower) : (noteAnswer leaderId answer cursor f).touches = [] := by
  rw [noteAnswer]
  split <;> rfl

theorem touches_followStream (ended leaderId : String) (answers : List (Ctx × StreamAnswer))
    (cursor : Nat) (f : Follower) :
    ∀ touch ∈ (f.followStream lib ended leaderId answers cursor).touches,
      touch.leader = leaderId := by
  induction answers generalizing cursor f with
  | nil => simp [followStream]
  | cons step answers ih =>
    refine touches_andThen (touches_andThen (touches_applyAnswer _ _ _ _ f) ?_) ?_
    · intro cursor _
      rw [touches_noteAnswer]
      simp
    · exact fun cursor _ => ih cursor _

theorem touches_followOnce (config : RuntimeConfig) (server : Except String Server)
    (f : Follower) : ∀ touch ∈ (f.followOnce lib md5 config server).touches,
      ∃ accepted, (f.connect config server).result = .ok accepted ∧
        touch.leader = accepted.2.serverId := by
  refine touches_andThen ?_ fun accepted hconnect touch hmem => ⟨accepted, hconnect, ?_⟩
  · rw [touches_connect]
    simp
  · refine touches_andThen (touches_compare _ _ _) (fun localLast _ => ?_) touch hmem
    refine touches_andThen (fun _ h => absurd h not_mem_nil) fun _ _ => ?_
    exact touches_followStream _ _ _ _ _

end Follower

/-- A server that is accepted after entries of another have been applied is that other one. -/
def Pinned (event : Control) (m : Manager) : Prop :=
  match event with
  | .attempt server => ∀ leader entries, .applied leader entries ∈ m.touches →
      ∀ accepted, (m.follower.connect m.config server).result = .ok accepted →
        accepted.2.serverId = leader
  | _ => True

def pinned (event : Control) (m : Manager) : Bool :=
  match event with
  | .attempt server =>
    match (m.follower.connect m.config server).result with
    | .error _ => true
    | .ok accepted => m.touches.all fun
      | .applied leader _ => accepted.2.serverId = leader
      | _ => true
  | _ => true

theorem pinned_of_test (event : Control) (m : Manager) (h : pinned event m) :
    Pinned event m := by
  cases event with
  | attempt server =>
    intro leader entries hin accepted hconnect
    rw [pinned, hconnect] at h
    exact of_decide_eq_true (all_eq_true.1 h _ hin)
  | _ => trivial

theorem Stays.append {touches new : List Touch} (h : Stays touches) {id : String}
    (hnew : ∀ touch ∈ new, touch.leader = id)
    (hsame : new ≠ [] → ∀ leader entries, .applied leader entries ∈ touches → id = leader) :
    Stays (touches ++ new) := by
  intro earlier later leader entries hsplit touch hmem
  rcases append_eq_append_iff.1 hsplit with ⟨between, hearlier, hrest⟩ | ⟨between, htouches, hrest⟩
  · -- the entries were applied in the attempt itself
    have happlied := hnew (.applied leader entries) (by simp [hrest])
    have hlater := hnew touch (by simp [hrest, hmem])
    exact hlater.trans happlied.symm
  · cases between with
    | nil =>
      rw [nil_append] at hrest
      have happlied := hnew (.applied leader entries) (by simp [← hrest])
      have hlater := hnew touch (by simp [← hrest, hmem])
      exact hlater.trans happlied.symm
    | cons first between =>
      obtain ⟨rfl, rfl⟩ := hrest
      rcases mem_append.1 hmem with hmem | hmem
      · exact h earlier between leader entries htouches touch hmem
      · have hin : .applied leader entries ∈ touches := by simp [htouches]
        exact (hnew touch hmem).trans (hsame (ne_nil_of_mem hmem) leader entries hin)

theorem Manager.touches_runFollowLoop (m : Manager) (server : Except String Server) :
    (m.runFollowLoop lib md5 server).touches =
      m.touches ++ (m.follower.followOnce lib md5 m.config server).touches := by
  rw [Manager.runFollowLoop]
  split
  · rfl
  · split <;> rfl

theorem Manager.stays_step {event : Control} {m m' : Manager} (h : Stays m.touches)
    (hpinned : Pinned event m) (hstep : m.step lib md5 event = some m') : Stays m'.touches := by
  have hnone : Stays [] := by
    intro earlier later leader entries hsplit
    simp at hsplit
  cases event with
  | attempt server =>
    rw [Manager.step] at hstep
    split at hstep
    · cases hstep
      have htouches := @Follower.touches_followOnce lib md5 m.config server m.follower
      rw [Manager.touches_runFollowLoop]
      cases hconnect : (m.follower.connect m.config server).result with
      | error e =>
        have hnew : (m.follower.followOnce lib md5 m.config server).touches = [] := by
          refine eq_nil_iff_forall_not_mem.2 fun touch hmem => ?_
          obtain ⟨accepted, hok, -⟩ := htouches touch hmem
          rw [hconnect] at hok
          cases hok
        rw [hnew, append_nil]
        exact h
      | ok accepted =>
        have hnew : ∀ touch ∈ (m.follower.followOnce lib md5 m.config server).touches,
            touch.leader = accepted.2.serverId := by
          intro touch hmem
          obtain ⟨accepted', hok, hleader⟩ := htouches touch hmem
          rw [hconnect] at hok
          cases hok
          exact hleader
        exact h.append hnew fun _ leader entries hin =>
          hpinned leader entries hin accepted hconnect
    · cases hstep
  | follow target server =>
    cases hstep
    rw [Manager.follow]
    split
    · exact h
    · split
      · exact h
      · exact hnone
  | unfollow =>
    cases hstep
    exact hnone

/-- Over every run of commands and attempts in which the id of the server is the same whenever
it matters. -/
theorem follower_stays_with_leader {m₀ m : Manager} (hfresh : m₀.touches = [])
    {schedule : List Control} (hmeet : StepsMeet (Manager.step lib md5) Pinned schedule m₀)
    (hrun : runSteps (Manager.step lib md5) schedule m₀ = some m) : Stays m.touches := by
  have hstart : Stays m₀.touches := by
    intro earlier later leader entries hsplit
    rw [hfresh] at hsplit
    simp at hsplit
  exact runSteps_invariant (fun _ _ _ h hpinned hstep => Manager.stays_step h hpinned hstep)
    hstart hmeet hrun

namespace TwoLeaders

open Sample

def server (serverId : String) (mark : UInt8) : Server where
  info := .ok { serverId, following := "", leader := true, lastSequence := 1 }
  checksum := fun _ _ => .ok (replicate 16 mark)
  stream := .ok ()
  answers := [(sampleCtx,
    { leaderLastSequence := 1, entries := [{ sequence := 1, timestampNs := 0, command := [3] }] })]
  ended := "disconnected"

def ones : List UInt8 → List UInt8 := fun _ => replicate 16 1

def config : RuntimeConfig where
  serverId := "local"
  replicationCredential := some "secret"
  followHost := some "leader"
  followPort := some 7654

def started : Manager := .start config { storage := {} }

/-- The second time another server answers under the same address, and the state is thrown away
and filled from it. -/
theorem other_server_takes_over : ∃ m,
    runSteps (Manager.step sampleLib ones)
      [.attempt (.ok (server "alpha" 1)), .attempt (.ok (server "beta" 2))] started = some m ∧
    m.touches.map Touch.leader = ["alpha", "beta", "beta"] ∧ ¬ Stays m.touches := by
  refine ⟨_, rfl, rfl, fun h => ?_⟩
  have hstay := h [] _ "alpha" _ rfl (.reset "beta") mem_cons_self
  exact absurd hstay (by decide)

theorem same_server_comes_back : ∃ m,
    runSteps (Manager.step sampleLib ones)
      [.attempt (.ok (server "alpha" 1)), .attempt (.ok (server "alpha" 2))] started = some m ∧
    m.touches.map Touch.leader = ["alpha", "alpha", "alpha"] ∧ Stays m.touches := by
  have hmeet : StepsMeet (Manager.step sampleLib ones) Pinned
      [.attempt (.ok (server "alpha" 1)), .attempt (.ok (server "alpha" 2))] started :=
    stepsMeet_of_checkSteps pinned pinned_of_test rfl
  exact ⟨_, rfl, rfl, follower_stays_with_leader rfl hmeet rfl⟩

end TwoLeaders

end LatLng.Replication
