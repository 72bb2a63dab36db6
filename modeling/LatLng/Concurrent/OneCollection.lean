import LatLng.Concurrent.Writers
import LatLng.Lib.Optimistic

/-! Calls on one collection. A call reads the collection, decides, and writes under the lock of
the collection if the version is the one it has read: the pool follows the optimistic protocol. -/

namespace LatLng.Concurrent

open LatLng.Core Geo Storage LatLng.Lib Std Request List Pool

variable {lib : Lib} {n : Nat}

/-! ### What a call decides -/

structure Sees (config : Config) (c : String) (cell : VersionedCollection) (db : Db) : Prop where
  cell : db.collections[c]? = some cell
  config : db.config = config
  stores : db.storage.storesCommandLog = true
  roams : db.geofences.requiresExclusiveRoamPath c = false

def Agree : Plan → Plan → Prop
  | .done result, .done result' => result = result'
  | .write w, .write w' => w.batch.commands = w'.batch.commands ∧ w.effect = w'.effect ∧
    w.version = w'.version ∧ w.reply = w'.reply
  | _, _ => False

theorem Agree.refl (plan : Plan) : Agree plan plan := by
  cases plan with
  | done result => exact rfl
  | write w => exact ⟨rfl, rfl, rfl, rfl⟩

variable (lib) in
theorem agree_planEvent (db db' : Db) (ctx : Ctx) (event : Geofence.MutationEvent)
    (command : Command) (effect : Effect) (version : Option Nat)
    (reply : Answer → Except CoreError Answer) :
    Agree (db.planEvent lib ctx event command effect version reply)
      (db'.planEvent lib ctx event command effect version reply) := by
  obtain ⟨webhooks, hw⟩ := db.webhookRecords_planMutation lib ctx event
  obtain ⟨webhooks', hw'⟩ := db'.webhookRecords_planMutation lib ctx event
  rw [Db.planEvent, Db.planEvent, hw, hw']
  exact ⟨rfl, rfl, rfl, rfl⟩

namespace Sees

variable {config : Config} {c : String} {cell : VersionedCollection} {db db' : Db} {ctx : Ctx}
  (h : Sees config c cell db)

include h

theorem getObject (id : String) : db.getObject c id = cell.objects[id]? := by
  rw [Db.getObject, h.cell, Option.bind_some]

theorem existing : db.existingCollectionHandle c = .ok cell := by
  rw [Db.existingCollectionHandle, h.cell]

variable (h' : Sees config c cell db')

include h'

theorem writable :
    db.ensureWritable = db'.ensureWritable := by
  rw [Db.ensureWritable, Db.ensureWritable, h.config, h'.config]

theorem planSet {req : SetRequest} (hreq : req.collection = c) (version : Option Nat) :
    Agree (db.planSet lib ctx req version) (db'.planSet lib ctx req version) := by
  rw [Db.planSet, Db.planSet, hreq, h.getObject, h'.getObject]
  split
  · exact rfl
  · exact rfl
  · exact agree_planEvent lib db db' ctx _ _ _ _ _

omit h' in
omit h in
theorem planFset (db db' : Db) (id : String) (fields : List FieldEntry) (xx : Bool)
    (version : Option Nat) :
    Agree (db.planFset lib ctx c id fields xx cell version)
      (db'.planFset lib ctx c id fields xx cell version) := by
  rw [Db.planFset, Db.planFset]
  split
  · exact rfl
  · exact agree_planEvent lib db db' ctx _ _ _ _ _

theorem planExpiry (id : String) (expiresAt : Option Nat) (command : Command) :
    db.planExpiry c id expiresAt command = db'.planExpiry c id expiresAt command := by
  rw [Db.planExpiry, Db.planExpiry, h.writable h', h.existing, h'.existing]

theorem editGeojsonLocal
    (id commandName : String) (edit : Json → Except GeoError (Json × Bool)) (command : Command)
    (answer : Bool → Answer) :
    db.editGeojsonLocal lib c id commandName edit command answer =
      db'.editGeojsonLocal lib c id commandName edit command answer := by
  rw [Db.editGeojsonLocal, Db.editGeojsonLocal, h.writable h', h.existing, h'.existing]

theorem localPlan {request : Request} (hc : request.collection? = some c) :
    ∃ plan plan', request.localPlan lib db ctx = some plan ∧
      request.localPlan lib db' ctx = some plan' ∧ Agree plan plan' := by
  have hboth : ∀ plan, ∃ plan₁ plan₂, some plan = some plan₁ ∧ some plan = some plan₂ ∧
      Agree plan₁ plan₂ := fun plan => ⟨plan, plan, rfl, rfl, .refl plan⟩
  cases request with
  | set req =>
    cases hc
    rw [localPlan, localPlan]
    split
    · exact hboth _
    · rw [Db.trySetLocal, Db.trySetLocal, h.writable h', h.roams, h'.roams, h.cell, h'.cell]
      split
      · exact hboth _
      · dsimp only
        rw [if_neg Bool.false_ne_true, if_neg Bool.false_ne_true, if_neg (by simp [h.stores]),
          if_neg (by simp [h'.stores])]
        exact ⟨_, _, rfl, rfl, h.planSet h' rfl _⟩
  | del c id =>
    cases hc
    rw [Request.localPlan, Request.localPlan, Db.tryDelLocal, Db.tryDelLocal, h.writable h',
      h.roams, h'.roams, h.cell, h'.cell]
    split
    · exact hboth _
    · dsimp only
      rw [if_neg Bool.false_ne_true, if_neg Bool.false_ne_true]
      split
      · exact hboth _
      · exact ⟨_, _, rfl, rfl, agree_planEvent lib db db' ctx _ _ _ _ _⟩
  | fset c id fields xx =>
    cases hc
    rw [Request.localPlan, Request.localPlan, Db.tryFsetLocal, Db.tryFsetLocal, h.writable h',
      h.roams, h'.roams, h.existing, h'.existing]
    split
    · exact hboth _
    · exact ⟨_, _, rfl, rfl, planFset db db' id fields xx _⟩
  | expire c id seconds =>
    cases hc
    rw [Request.localPlan, Request.localPlan, Db.tryExpireLocal, Db.tryExpireLocal,
      h.planExpiry h']
    exact hboth _
  | persist c id =>
    cases hc
    rw [Request.localPlan, Request.localPlan, Db.tryPersistLocal, Db.tryPersistLocal,
      h.planExpiry h']
    exact hboth _
  | jset c id path value raw =>
    cases hc
    rw [Request.localPlan, Request.localPlan, Db.tryJsetLocal, Db.tryJsetLocal,
      h.editGeojsonLocal h']
    exact hboth _
  | jdel c id path =>
    cases hc
    rw [Request.localPlan, Request.localPlan, Db.jdelExclusive, Db.jdelExclusive,
      h.editGeojsonLocal h']
    exact hboth _
  | _ => cases hc

end Sees

/-! ### The protocol -/

variable (lib) in
def Decides (config : Config) (c : String) (request : Request) (ctx : Ctx)
    (cell : VersionedCollection) (plan : Plan) : Prop :=
  ∃ db, Sees config c cell db ∧ request.localPlan lib db ctx = some plan

variable (lib) in
def Takes (w : Write) (c : String) (cell cell' : VersionedCollection) : Prop :=
  ∃ m, w.effect = .mutate c m ∧ m.apply lib cell = (.ok true, cell')

variable (lib) in
def Carries (commands : List Command) (entries : List StorageEntry) : Prop :=
  ∃ records, records.filterMap LogRecord.command? = commands ∧
    List.Forall₂ (fun record entry => lib.codec.toJson record = .ok entry.command) records entries

theorem Mutation.version_apply {m : Mutation} {v v' : VersionedCollection}
    (h : m.apply lib v = (.ok true, v')) : v'.version = v.version + 1 := by
  cases m with
  | upsert object | remove id | insertFields id fields | setExpiry id expiresAt =>
    rw [Mutation.apply] at h
    split at h
    · cases h
      rfl
    · cases h
  | replaceGeo id geo clearTtl =>
    rw [Mutation.apply] at h
    split at h
    · cases h
    · cases h
      rfl

variable {w : Write} {cell cell' : VersionedCollection} {c : String}

theorem Takes.version_lt (h : Takes lib w c cell cell') : cell.version < cell'.version := by
  obtain ⟨m, -, hm⟩ := h
  rw [Mutation.version_apply hm]
  exact Nat.lt_succ_self _

theorem Takes.apply
    (h : Takes lib w c cell cell') {s : Store} (hs : s.collections[c]? = some cell) :
    w.effect.apply lib s = (.ok (.bool true), s.setCell c cell') := by
  obtain ⟨m, hm, happly⟩ := h
  rw [hm, Effect.apply, Store.ensureCollectionCell, hs, Option.getD_some, happly]

theorem Takes.write {w : Write}
    (h : Takes lib w c cell cell') {s : Store} (hs : s.collections[c]? = some cell) :
    w.apply lib s = (w.reply (.bool true), (s.setCell c cell').applyPlanned w.planned) := by
  rw [Write.apply, h.apply hs]
  dsimp only
  split
  next hfalse => cases hfalse
  · rfl

namespace Decides

variable {config : Config} {c : String} {request : Request} {ctx : Ctx}
  {cell : VersionedCollection} {w : Write}

theorem version (h : Decides lib config c request ctx cell (.write w))
    (hc : request.collection? = some c) : w.version = some cell.version := by
  obtain ⟨db, hsees, hplan⟩ := h
  obtain ⟨cell', hcell', hversion⟩ := (localPlan_local hplan hc hsees.stores).version
  cases hcell'.symm.trans hsees.cell
  exact hversion

theorem count_pos (h : Decides lib config c request ctx cell (.write w)) : 0 < w.batch.count := by
  obtain ⟨db, -, hplan⟩ := h
  have hw : w.Intended lib db.view (request.aim lib db) := localPlan_intended hplan
  exact Batch.count_pos hw.intends.commands_ne_nil

theorem takes (h : Decides lib config c request ctx cell (.write w))
    (hc : request.collection? = some c) (hidx : w.effect.indexable lib) :
    ∃ cell', Takes lib w c cell cell' := by
  obtain ⟨db, hsees, hplan⟩ := h
  obtain ⟨m, hm⟩ := (localPlan_local hplan hc hsees.stores).effect
  have hw : w.Intended lib db.view (request.aim lib db) := localPlan_intended hplan
  obtain ⟨⟨answer, hanswer, hfound⟩, -⟩ := hw.intends.view hidx 0
  cases hfound c m hm
  rw [hm, Effect.apply, Store.ensureCollectionCell, hsees.cell, Option.getD_some] at hanswer
  rcases happly : m.apply lib cell with ⟨e | present, cell'⟩
  · rw [happly] at hanswer
    cases hanswer
  · rw [happly] at hanswer
    cases hanswer
    exact ⟨cell', m, hm, happly⟩

end Decides

structure Seen where
  cell : VersionedCollection
  log : List StorageEntry

variable (lib) in
def protocol (config : Config) (c : String) (requests : Fin n → Request) :
    Optimistic.Protocol (Fin n) Seen Ctx (Except CoreError Answer) where
  answers := fun i ctx s result => Decides lib config c (requests i) ctx s.cell (.done result)
  commits := fun i ctx s t result => ∃ w block,
    Decides lib config c (requests i) ctx s.cell (.write w) ∧ Takes lib w c s.cell t.cell ∧
    Carries lib w.batch.commands block ∧ t.log = s.log ++ block ∧ result = w.reply (.bool true)
  version := fun s => s.cell.version
  version_lt := fun ⟨_, _, _, htakes, _⟩ => htakes.version_lt

/-! ### The pool follows the protocol -/

/-- Calls on one existing collection that no fence connects with another one, and a backend that
works. -/
structure OnOne (db : Db) (c : String) (requests : Fin n → Request) : Prop where
  faults : db.storage.faults = []
  opened : db.storage.closed = false
  stores : db.storage.storesCommandLog = true
  counted : ∀ last ∈ db.storage.entries.getLast?, last.sequence ≤ db.nextSequence
  collection : ∀ i, (requests i).collection? = some c
  found : db.collections.contains c = true
  roams : db.geofences.requiresExclusiveRoamPath c = false

variable (lib) in
def Indexable (action : Fin n × Ctx) (p : Pool n) : Prop :=
  ∀ gate w, p.phase action.1 = .appended gate w → w.effect.indexable lib = true

section Simulation

variable (lib) (db : Db) (c : String) (requests : Fin n → Request)

def MayWrite (current : Seen) (i : Fin n)
    (abstract : Optimistic.Phase Seen Ctx (Except CoreError Answer)) (gate : Gate) (w : Write) :
    Prop :=
  gate = .shared ∧ ∃ ctx, abstract = .planned current ctx ∧
    Decides lib db.config c (requests i) ctx current.cell (.write w)

def Matches (current : Seen) (i : Fin n)
    (abstract : Optimistic.Phase Seen Ctx (Except CoreError Answer)) : Phase → Prop
  | .start => abstract = .idle
  | .reading => abstract = .idle
  | .read cell => ∃ t, abstract = .read t ∧ cell = some t.cell ∧
    Optimistic.Follows (protocol lib db.config c requests) t current
  | .planned w => ∃ t ctx, abstract = .planned t ctx ∧
    Decides lib db.config c (requests i) ctx t.cell (.write w) ∧
    Optimistic.Follows (protocol lib db.config c requests) t current
  | .waiting => False
  | .ready gate w => MayWrite lib db c requests current i abstract gate w
  | .reserved gate w _ => MayWrite lib db c requests current i abstract gate w
  | .appended gate w => MayWrite lib db c requests current i abstract gate w
  | .changed gate w answer => gate = .shared ∧ abstract = .done (w.reply answer)
  | .done result => abstract = .done result

/-- The pool and a state of the protocol. Between the append of a call and its change, the log
is one block ahead. -/
structure Simulates (p : Pool n) (s : Optimistic.State (Fin n) Seen Ctx (Except CoreError Answer)) :
    Prop where
  config : p.db.config = db.config
  storage : p.db.storage = { db.storage with entries := p.db.storage.entries }
  roams : p.db.geofences.requiresExclusiveRoamPath c = false
  others : ∀ c', c' ≠ c → p.db.collections[c']? = db.collections[c']?
  cell : p.db.collections[c]? = some s.current.cell
  phases : ∀ i, Matches lib db c requests s.current i (s.phase i) (p.phase i)
  alone : ∀ i j, (p.phase i).locks = true → (p.phase j).locks = true → i = j
  counted : ∀ last ∈ p.db.storage.entries.getLast?, last.sequence ≤ p.db.nextSequence
  reserved : ∀ i gate w sequences, p.phase i = .reserved gate w sequences →
    Reservation p.db w sequences
  log : ∃ block, p.db.storage.entries = s.current.log ++ block ∧
    (∀ i gate w, p.phase i = .appended gate w → Carries lib w.batch.commands block) ∧
    ((∀ i gate w, p.phase i ≠ .appended gate w) → block = [])

end Simulation

namespace Simulates

variable {db : Db} {c : String} {requests : Fin n → Request} {p : Pool n}
  {s : Optimistic.State (Fin n) Seen Ctx (Except CoreError Answer)}

variable (lib) in
theorem start (hs : OnOne db c requests) :
    ∃ cell, db.collections[c]? = some cell ∧
      Simulates lib db c requests (.start db) (.start ⟨cell, db.storage.entries⟩) := by
  have hfound := hs.found
  rw [ExtTreeMap.contains_eq_isSome_getElem?] at hfound
  obtain ⟨cell, hcell⟩ := Option.isSome_iff_exists.1 hfound
  refine ⟨cell, hcell, rfl, rfl, hs.roams, fun _ _ => rfl, hcell, fun _ => rfl, ?_, hs.counted,
    ?_, [], (append_nil _).symm, ?_, fun _ => rfl⟩
  · exact fun _ _ h => nomatch h
  · exact fun _ _ _ _ h => nomatch h
  · exact fun _ _ _ h => nomatch h

variable (h : Simulates lib db c requests p s)

include h

theorem sees (hs : OnOne db c requests) (t : Seen) :
    Sees db.config c t.cell (showing p.db c (some t.cell)) where
  cell := by rw [showing, ExtTreeMap.getElem?_alter_self]
  config := h.config
  stores := by
    change p.db.storage.storesCommandLog = true
    rw [h.storage]
    exact hs.stores
  roams := h.roams

omit h in
theorem unlocked (hs : OnOne db c requests) (hlock : p.locked requests c = false) (i : Fin n) :
    (p.phase i).locks = false := by
  by_contra hi
  exact Pool.locked_eq_false.1 hlock i (Bool.not_eq_false _ ▸ hi) (hs.collection i)

omit h in
theorem roams_applyPlanned (s : Store) (planned : List Geofence.PreparedMutation) (c : String) :
    (s.applyPlanned planned).geofences.requiresExclusiveRoamPath c =
      s.geofences.requiresExclusiveRoamPath c := by
  rw [Store.applyPlanned]
  generalize s.geofences = r
  induction planned generalizing r with
  | nil => rfl
  | cons prepared planned ih => exact ih (r.applyPreparedMutation prepared)

variable {i : Fin n}

theorem move (db' : Db) (phase : Phase)
    (abstract : Optimistic.Phase Seen Ctx (Except CoreError Answer))
    (hconfig : db'.config = p.db.config) (hstorage : db'.storage = p.db.storage)
    (hroams : db'.geofences.requiresExclusiveRoamPath c = p.db.geofences.requiresExclusiveRoamPath c)
    (hcollections : db'.collections = p.db.collections)
    (hnext : p.db.nextSequence ≤ db'.nextSequence)
    (hmatch : Matches lib db c requests s.current i abstract phase)
    (hlocks : phase.locks → ∀ j, (p.phase j).locks → j = i)
    (hold : ∀ gate w, p.phase i ≠ .appended gate w) (hnew : ∀ gate w, phase ≠ .appended gate w)
    (hreserved : ∀ gate w sequences, phase = .reserved gate w sequences →
      Reservation db' w sequences) :
    Simulates lib db c requests (p.set i db' phase) (s.set i s.current abstract) where
  config := hconfig.trans h.config
  storage := by
    change db'.storage = { db.storage with entries := db'.storage.entries }
    rw [hstorage]
    exact h.storage
  roams := hroams.trans h.roams
  others := fun c' hc' => by rw [db_set, hcollections, h.others c' hc']
  cell := by rw [db_set, hcollections]; exact h.cell
  phases := by
    intro j
    by_cases hj : j = i
    · subst hj
      rw [phase_set_self, Optimistic.State.phase_set_self]
      exact hmatch
    · rw [p.phase_set_of_ne hj, Optimistic.State.phase_set_of_ne s hj]
      exact h.phases j
  alone := only_set Phase.locks h.alone hlocks
  counted := by
    intro last hlast
    rw [db_set, hstorage] at hlast
    exact (h.counted last hlast).trans hnext
  reserved := by
    intro j gate w sequences hj
    rcases phase_set_cases hj with ⟨-, hj⟩ | ⟨-, hj⟩
    · exact hreserved gate w sequences hj
    · exact (h.reserved j gate w sequences hj).mono hstorage hnext
  log := by
    obtain ⟨block, hblock, htrailing⟩ := h.log
    refine ⟨block, ?_, Pool.Trailing.set htrailing hold hnew⟩
    rw [db_set, hstorage]
    exact hblock

theorem others_unlocked (hi : (p.phase i).locks)
    {j : Fin n} (hj : j ≠ i) : (p.phase j).locks = false := by
  by_contra hl
  exact hj (h.alone j i (Bool.not_eq_false _ ▸ hl) hi)

variable {gate : Gate}

theorem locks_of_appended (hi : p.phase i = .appended gate w) : (p.phase i).locks = true := by
  have hmatch := h.phases i
  rw [hi] at hmatch ⊢
  obtain ⟨rfl, -⟩ := hmatch
  rfl

theorem locks_of_reserved {sequences : List Nat}
    (hi : p.phase i = .reserved gate w sequences) : (p.phase i).locks = true := by
  have hmatch := h.phases i
  rw [hi] at hmatch ⊢
  obtain ⟨rfl, -⟩ := hmatch
  rfl

theorem appended_alone (hi : (p.phase i).locks) (j : Fin n) (gate : Gate) (w : Write)
    (hj : p.phase j = .appended gate w) : j = i :=
  h.alone j i (h.locks_of_appended hj) hi

theorem none_appended
    {sequences : List Nat} (hi : p.phase i = .reserved gate w sequences) (j : Fin n) (gate' : Gate)
    (w' : Write) : p.phase j ≠ .appended gate' w' := by
  intro hj
  cases h.appended_alone (h.locks_of_reserved hi) j gate' w' hj
  cases hj.symm.trans hi

theorem none_reserved (hi : (p.phase i).locks) {db' : Db} {phase : Phase}
    (hphase : ∀ gate w sequences, phase ≠ .reserved gate w sequences) (j : Fin n) (gate : Gate)
    (w : Write) (sequences : List Nat) :
    (p.set i db' phase).phase j ≠ .reserved gate w sequences := by
  intro hj
  obtain ⟨hji, hj⟩ := phase_of_set hj (hphase gate w sequences)
  exact hji (h.alone j i (h.locks_of_reserved hj) hi)

end Simulates

theorem carries_encode {nowNs : Nat} {sequences : List Nat} {entries : List StorageEntry}
    (hlen : sequences.length = (w.batch.numbered lib sequences).length)
    (h : encodeEntriesForSequences lib nowNs (w.batch.numbered lib sequences) sequences =
      .ok entries) : Carries lib w.batch.commands entries :=
  ⟨_, w.batch.commands_numbered lib sequences, toJson_encodeEntries hlen h⟩

namespace Simulates

variable {db : Db} {c : String} {requests : Fin n → Request} {p : Pool n}
  {s : Optimistic.State (Fin n) Seen Ctx (Except CoreError Answer)}
  (h : Simulates lib db c requests p s)

include h

variable {i : Fin n} {gate : Gate}

theorem append (hjson : lib.codec.Total) (hs : OnOne db c requests) {nowNs : Nat}
    {sequences : List Nat} (hi : p.phase i = .reserved gate w sequences) :
    ∃ db', p.db.appendNumbered lib nowNs (w.batch.numbered lib sequences) sequences =
        (.ok sequences, db') ∧
      Simulates lib db c requests (p.set i db' (.appended gate w)) s := by
  have hreserved := h.reserved i gate w sequences hi
  have hlocks := h.locks_of_reserved hi
  have hfaults : p.db.storage.faults = [] := by rw [h.storage]; exact hs.faults
  have hopen : p.db.storage.closed = false := by rw [h.storage]; exact hs.opened
  obtain ⟨entries, hencode, happend, hlast⟩ := hreserved.append hjson hfaults hopen nowNs
  refine ⟨_, happend, ?_⟩
  refine { h with storage := ?_, phases := ?_, alone := ?_, counted := ?_, reserved := ?_
                  log := ?_ }
  · rw [db_set]
    rw [h.storage]
  · have hmatch := h.phases i
    rw [hi] at hmatch
    exact forall_set (fun j => Matches lib db c requests s.current j (s.phase j)) hmatch
      fun j _ => h.phases j
  · exact only_set Phase.locks h.alone fun _ j hj => h.alone j i hj hlocks
  · exact fun last hl => Nat.le_of_lt_succ ((hlast last hl).trans_le hreserved.passed)
  · exact fun j gate' w' sequences' hj => absurd hj
      (h.none_reserved hlocks (fun _ _ _ h => by cases h) j gate' w' sequences')
  · obtain ⟨block, hblock, htrailing⟩ := h.log
    have hcarries : Carries lib w.batch.commands entries := by
      refine carries_encode ?_ hencode
      rw [hreserved.range, w.batch.length_numbered, length_range']
    obtain ⟨rfl, hnew⟩ := Pool.Trailing.append htrailing (h.none_appended hi) hcarries
    refine ⟨entries, ?_, hnew⟩
    rw [db_set]
    rw [hblock, append_nil]

theorem change (hs : OnOne db c requests) (hi : p.phase i = .appended gate w)
    (hidx : w.effect.indexable lib) :
    ∃ t ctx, w.effect.apply lib p.db.toStore = (.ok (.bool true), p.db.setCell c t.cell) ∧
      s.phase i = .planned s.current ctx ∧
      (protocol lib db.config c requests).commits i ctx s.current t (w.reply (.bool true)) ∧
      Simulates lib db c requests
        (p.set i { p.db with toStore := p.db.setCell c t.cell } (.changed gate w (.bool true)))
        (s.set i t (.done (w.reply (.bool true)))) := by
  have hlocks := h.locks_of_appended hi
  have hmatch := h.phases i
  rw [hi] at hmatch
  obtain ⟨hgate, ctx, habstract, hdecides⟩ := hmatch
  obtain ⟨cell', htakes⟩ := hdecides.takes (hs.collection i) hidx
  obtain ⟨block, hblock, happended, -⟩ := h.log
  have hcarries := happended i gate w hi
  have hcommits : (protocol lib db.config c requests).commits i ctx s.current
      ⟨cell', s.current.log ++ block⟩ (w.reply (.bool true)) :=
    ⟨w, block, hdecides, htakes, hcarries, rfl, rfl⟩
  have hfollows : Optimistic.Follows (protocol lib db.config c requests) s.current
      ⟨cell', s.current.log ++ block⟩ := .inr htakes.version_lt
  refine ⟨⟨cell', s.current.log ++ block⟩, ctx, htakes.apply h.cell, habstract, hcommits, ?_⟩
  refine { h with others := ?_, cell := ?_, phases := ?_, alone := ?_, reserved := ?_, log := ?_ }
  · intro c' hc'
    rw [← h.others c' hc', db_set]
    dsimp only [Store.setCell]
    rw [ExtTreeMap.getElem?_insert,
      if_neg fun heq => hc' (LawfulEqCmp.eq_of_compare heq).symm]
  · exact ExtTreeMap.getElem?_insert_self
  · intro j
    by_cases hji : j = i
    · rw [hji, phase_set_self, Optimistic.State.phase_set_self]
      exact ⟨hgate, rfl⟩
    · have hj := h.phases j
      have hfree := h.others_unlocked hlocks hji
      rw [p.phase_set_of_ne hji, s.phase_set_of_ne hji]
      cases hphase : p.phase j with
      | read cell =>
        rw [hphase] at hj
        obtain ⟨t, ht, hcell, hbehind⟩ := hj
        exact ⟨t, ht, hcell, hbehind.trans hfollows⟩
      | planned w' =>
        rw [hphase] at hj
        obtain ⟨t, ctx', ht, hw', hbehind⟩ := hj
        exact ⟨t, ctx', ht, hw', hbehind.trans hfollows⟩
      | ready gate' w' | reserved gate' w' sequences | appended gate' w' =>
        rw [hphase] at hj hfree
        cases hj.1
        cases hfree
      | _ =>
        rw [hphase] at hj
        exact hj
  · exact only_set Phase.locks h.alone (nomatch ·)
  · exact fun j gate' w' sequences hj => absurd hj
      (h.none_reserved hlocks (fun _ _ _ h => by cases h) j gate' w' sequences)
  · refine ⟨[], ?_, trailing_nil (h.appended_alone hlocks) fun _ _ => nofun⟩
    rw [append_nil]
    exact hblock

theorem advance {current : Phase} (phase : Phase)
    (abstract : Optimistic.Phase Seen Ctx (Except CoreError Answer)) (hi : p.phase i = current)
    (hcurrent : current.early) (hphase : phase.early ∨ ∃ result, phase = .done result)
    (hlocks : phase.locks → ∀ j, (p.phase j).locks = false)
    (hmatch : Matches lib db c requests s.current i abstract phase) :
    Simulates lib db c requests (p.set i p.db phase) (s.set i s.current abstract) := by
  refine h.move p.db phase abstract rfl rfl rfl rfl le_rfl hmatch (fun hl j hj => ?_) (fun gate w hw => ?_)
    (fun gate w hw => ?_) (fun gate w sequences hw => ?_)
  · rw [hlocks hl j] at hj
    cases hj
  · rw [← hi, hw] at hcurrent
    cases hcurrent
  · rcases hphase with hearly | ⟨result, rfl⟩
    · rw [hw] at hearly
      cases hearly
    · cases hw
  · rcases hphase with hearly | ⟨result, rfl⟩
    · rw [hw] at hearly
      cases hearly
    · cases hw

theorem reserve (hi : p.phase i = .ready gate w) :
    Simulates lib db c requests
      (p.set i { p.db with nextSequence := p.db.nextSequence + w.batch.count }
        (.reserved gate w (range' (p.db.nextSequence + 1) w.batch.count))) s := by
  have hmatch := h.phases i
  rw [hi] at hmatch
  have hwrite := hmatch
  obtain ⟨rfl, ctx, -, hdecides⟩ := hwrite
  have hlocks : (p.phase i).locks = true := by rw [hi]; rfl
  rw [← s.set_eq_self rfl]
  refine h.move _ _ _ rfl rfl rfl rfl (Nat.le_add_right _ _) hmatch
    (fun _ j hj => h.alone j i hj hlocks) (fun gate w hw => by cases hw.symm.trans hi)
    (fun _ _ => nofun) ?_
  rintro gate' w' sequences hphase
  cases hphase
  exact (Reservation.next hdecides.count_pos h.counted).2

theorem step (hjson : lib.codec.Total) (hs : OnOne db c requests) {action : Fin n × Ctx}
    (hidx : Indexable lib action p) {p' : Pool n} (hstep : p.step lib requests action = some p') :
    ∃ s', Optimistic.Step (protocol lib db.config c requests) action.1 action.2 s s' ∧
      Simulates lib db c requests p' s' := by
  obtain ⟨db', phase, hmoves, rfl⟩ := step_cases hstep
  obtain ⟨i, ctx⟩ := action
  generalize hi : p.phase i = current at hmoves
  have hmatch := h.phases i
  rw [hi] at hmatch
  cases hmoves with
  | skip hnone => cases hnone.symm.trans (hs.collection i)
  | enter hc hgate =>
    have hsim := h.advance .reading .idle hi rfl (.inl rfl) (fun h => by cases h) rfl
    rw [s.set_eq_self hmatch] at hsim
    exact ⟨s, .silent, hsim⟩
  | @read c' hc hlock =>
    cases hc.symm.trans (hs.collection i)
    exact ⟨_, .read hmatch, h.advance _ _ hi rfl (.inl rfl) (fun h => by cases h)
      ⟨s.current, rfl, h.cell, .inl rfl⟩⟩
  | @plan c' cell w hc hplan =>
    cases hc.symm.trans (hs.collection i)
    obtain ⟨t, habstract, rfl, hfollows⟩ := hmatch
    exact ⟨_, .plan habstract, h.advance _ _ hi rfl (.inl rfl) (fun h => by cases h)
      ⟨t, ctx, rfl, ⟨_, h.sees hs t, hplan⟩, hfollows⟩⟩
  | @answer c' cell result hc hplan =>
    cases hc.symm.trans (hs.collection i)
    obtain ⟨t, habstract, rfl, -⟩ := hmatch
    exact ⟨_, .answer habstract ⟨_, h.sees hs t, hplan⟩,
      h.advance _ _ hi rfl (.inr ⟨_, rfl⟩) (fun h => by cases h) rfl⟩
  | @yield c' cell hc hplan =>
    -- no fence asks for the exclusive gate
    cases hc.symm.trans (hs.collection i)
    obtain ⟨t, -, rfl, -⟩ := hmatch
    obtain ⟨plan, -, hsome, -⟩ := (h.sees hs t).localPlan (h.sees hs t) hc
    rw [hplan] at hsome
    cases hsome
  | @lock c' w hc hlock hversion =>
    cases hc.symm.trans (hs.collection i)
    obtain ⟨t, ctx', habstract, hdecides, hfollows⟩ := hmatch
    rw [h.cell, hdecides.version hc] at hversion
    -- the version is the one that was read, so the collection is
    have hcurrent : t = s.current := by
      rcases hfollows with heq | hlt
      · exact heq
      · exact absurd (Option.some.inj hversion) (Nat.ne_of_gt hlt)
    subst hcurrent
    have hsim := h.advance (.ready .shared w) _ hi rfl (.inl rfl) (fun _ => unlocked hs hlock)
      ⟨rfl, ctx', rfl, hdecides⟩
    rw [s.set_eq_self habstract] at hsim
    exact ⟨s, .silent, hsim⟩
  | retry hc hversion =>
    obtain ⟨t, ctx', habstract, -⟩ := hmatch
    exact ⟨_, .retry habstract, h.advance _ _ hi rfl (.inl rfl) (fun h => by cases h) rfl⟩
  | planAlone => exact hmatch.elim
  | answerAlone => exact hmatch.elim
  | reserve => exact ⟨s, .silent, h.reserve hi⟩
  | append happend =>
    obtain ⟨db'', hok, hsim⟩ := h.append hjson hs hi
    cases hok.symm.trans happend
    exact ⟨s, .silent, hsim⟩
  | refuse happend =>
    obtain ⟨db'', hok, -⟩ := h.append hjson hs hi
    cases hok.symm.trans happend
  | create hmissing =>
    obtain ⟨-, ctx', -, db₀, hsees, hplan⟩ := hmatch
    obtain ⟨m, hm⟩ := (localPlan_local hplan (hs.collection i) hsees.stores).effect
    rw [hm, missing, ExtTreeMap.contains_eq_isSome_getElem?, h.cell] at hmissing
    cases hmissing
  | fail hmissing happly =>
    obtain ⟨t, ctx', hok, -⟩ := h.change hs hi (hidx _ _ hi)
    cases hok.symm.trans happly
  | change hmissing happly =>
    obtain ⟨t, ctx', hok, habstract, hcommits, hsim⟩ := h.change hs hi (hidx _ _ hi)
    cases hok.symm.trans happly
    rw [retries_found]
    exact ⟨_, .commit habstract rfl hcommits, hsim⟩
  | @finish gate w answer =>
    obtain ⟨-, habstract⟩ := hmatch
    have hsim := h.move { p.db with toStore := p.db.applyPlanned (fences w answer) }
      (.done (w.reply answer)) (.done (w.reply answer)) rfl rfl (roams_applyPlanned _ _ c) rfl le_rfl
      rfl (fun h => by cases h) (fun _ _ hw => by cases hw.symm.trans hi)
      (fun _ _ h => by cases h) (fun _ _ _ h => by cases h)
    rw [s.set_eq_self habstract] at hsim
    exact ⟨s, .silent, hsim⟩

theorem run (hjson : lib.codec.Total)
    (hs : OnOne db c requests) {schedule : List (Fin n × Ctx)} {p' : Pool n}
    (hmeet : StepsMeet (Pool.step lib requests) (Indexable lib) schedule p)
    (hrun : runSteps (Pool.step lib requests) schedule p = some p') :
    ∃ s', Optimistic.Run (protocol lib db.config c requests) schedule s s' ∧
      Simulates lib db c requests p' s' := by
  induction schedule generalizing p s with
  | nil =>
    cases hrun
    exact ⟨s, .nil s, h⟩
  | cons action schedule ih =>
    obtain ⟨q, hq, hrest⟩ := Option.bind_eq_some_iff.1 hrun
    obtain ⟨t, hstep, hsim⟩ := h.step hjson hs hmeet.1 hq
    obtain ⟨s', hrun', hsim'⟩ := ih hsim (hmeet.2 q hq) hrest
    exact ⟨s', .cons hstep hrun', hsim'⟩

end Simulates

end LatLng.Concurrent
