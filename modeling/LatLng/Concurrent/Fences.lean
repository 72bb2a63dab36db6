import LatLng.Concurrent.Linearize

/-! Fences under concurrent writes. A call plans its fence updates before it takes the lock of the
collection and applies them after it has given the lock back. -/

namespace LatLng.Concurrent

open LatLng.Core Geo Geofence Storage LatLng.Lib Std List Pool

variable {lib : Lib} {n : Nat}

/-! ### Events and the serial evaluation -/

namespace Phase

def owes : Phase → Bool
  | .changed _ _ _ => true
  | _ => false

def updates : Phase → List PreparedMutation
  | .changed _ w answer => fences w answer
  | _ => []

def holds : Phase → Option Write
  | .ready _ w => some w
  | .reserved _ w _ => some w
  | .appended _ w => some w
  | _ => none

end Phase

def eventsOf (planned : List PreparedMutation) : List GeofenceEvent :=
  planned.flatMap PreparedMutation.events

structure Observed (n : Nat) where
  pool : Pool n
  published : List GeofenceEvent

namespace Observed

def start (db : Db) : Observed n := { pool := .start db, published := [] }

variable (lib) in
def step (requests : Fin n → Request) (action : Fin n × Ctx) (q : Observed n) :
    Option (Observed n) :=
  (q.pool.step lib requests action).map fun pool =>
    { pool, published := q.published ++ eventsOf (q.pool.phase action.1).updates }

end Observed

structure Committed (n : Nat) where
  call : Fin n
  ctx : Ctx
  write : Write

variable (lib) in
/-- The writes are the ones that the calls plan when they are made one after the other; each
changes the state and then the fences. -/
inductive Serially (db : Db) (requests : Fin n → Request) : Store → List (Committed n) → Store → Prop
  | nil (s : Store) : Serially db requests s [] s
  | cons {s t : Store} {x : Committed n} {xs : List (Committed n)}
    (hplan : (requests x.call).plan lib { db with toStore := s } x.ctx = .write x.write)
    (hrest : Serially db requests (x.write.apply lib s).2 xs t) : Serially db requests s (x :: xs) t

theorem Serially.concat {db : Db} {requests : Fin n → Request} {s t : Store} {x : Committed n}
    {xs : List (Committed n)} (h : Serially lib db requests s xs t)
    (hplan : (requests x.call).plan lib { db with toStore := t } x.ctx = .write x.write) :
    Serially lib db requests s (xs ++ [x]) (x.write.apply lib t).2 := by
  induction h with
  | nil s => exact .cons hplan (.nil _)
  | cons hhead _ ih => exact .cons hhead (ih hplan)

variable (lib) in
def Encodes (w : Write) (entries : List StorageEntry) : Prop :=
  ∃ nowNs sequences, sequences.length = w.batch.count ∧
    encodeEntriesForSequences lib nowNs (w.batch.numbered lib sequences) sequences = .ok entries

/-- No call plans while another one has changed the state and not yet updated the fences. -/
def Settled (action : Fin n × Ctx) (p : Pool n) : Prop :=
  ∀ cell, p.phase action.1 = .read cell → ∀ j, (p.phase j).owes = false

theorem localPlan_congr {db db' : Db} (hstore : db.toStore = db'.toStore)
    (hconfig : db.config = db'.config)
    (hstores : db.storage.storesCommandLog = db'.storage.storesCommandLog) (request : Request)
    (ctx : Ctx) : request.localPlan lib db ctx = request.localPlan lib db' ctx := by
  obtain ⟨store, storage, config, next, expired⟩ := db
  subst hstore hconfig
  cases request with
  | set req =>
    rw [Request.localPlan, Request.localPlan, Db.trySetLocal, Db.trySetLocal]
    rw [hstores]
    rfl
  | _ => rfl

/-! ### What holds when no call plans too early -/

section Invariant

variable (lib) (db : Db) (c : String) (requests : Fin n → Request) (schedule : List (Fin n × Ctx))

/-- The write is the one that the call would plan after the given writes, and no fence update is
outstanding. -/
def Current (p : Pool n) (store : Store) (i : Fin n) (w : Write) : Prop :=
  (∀ j, (p.phase j).owes = false) ∧ ∃ ctx, (i, ctx) ∈ schedule ∧
    (requests i).plan lib { db with toStore := store } ctx = .write w

/-- The writes so far, evaluated one after the other, give the store; the fences of the pool lack
the pending updates only. -/
structure Fenced (q : Observed n) (committed : List (Committed n)) (store : Store)
    (pending : List PreparedMutation) : Prop where
  serial : Serially lib db requests db.toStore committed store
  calls : ∀ x ∈ committed, (x.call, x.ctx) ∈ schedule
  collections : store.collections = q.pool.db.collections
  fences : store.geofences = (q.pool.db.applyPlanned pending).geofences
  published : eventsOf (committed.flatMap fun x => x.write.planned) =
    q.published ++ eventsOf pending
  single : ∀ i j, (q.pool.phase i).owes = true → (q.pool.phase j).owes = true → i = j
  owed : ∀ i, (q.pool.phase i).owes = true → pending = (q.pool.phase i).updates
  settled : (∀ i, (q.pool.phase i).owes = false) → pending = []
  planned : ∀ i w, q.pool.phase i = .planned w →
    q.pool.db.collections[c]?.map VersionedCollection.version = w.version →
    Current lib db requests schedule q.pool store i w
  locked : ∀ i w, (q.pool.phase i).holds = some w →
    Current lib db requests schedule q.pool store i w
  log : ∃ blocks block, q.pool.db.storage.entries = db.storage.entries ++ blocks.flatten ++ block ∧
    List.Forall₂ (fun x entries => Encodes lib x.write entries) committed blocks ∧
    (∀ i gate w, q.pool.phase i = .appended gate w → Encodes lib w block) ∧
    ((∀ i gate w, q.pool.phase i ≠ .appended gate w) → block = [])

end Invariant

namespace Fenced

variable {db : Db} {c : String} {requests : Fin n → Request} {schedule : List (Fin n × Ctx)}
  {q : Observed n} {committed : List (Committed n)} {store : Store} {pending : List PreparedMutation}
  {s : Optimistic.State (Fin n) Seen Ctx (Except CoreError Answer)}

theorem start : Fenced lib db c requests schedule (.start db) [] db.toStore [] where
  serial := .nil _
  calls := fun _ hx => absurd hx not_mem_nil
  collections := rfl
  fences := rfl
  published := rfl
  single := fun _ _ h => nomatch h
  owed := fun _ h => nomatch h
  settled := fun _ => rfl
  planned := fun _ _ h => nomatch h
  locked := fun _ _ h => nomatch h
  log := by
    refine ⟨[], [], ?_, .nil, fun _ _ _ h => (by cases h), fun _ => rfl⟩
    rw [flatten_nil, append_nil, append_nil]
    rfl

variable (h : Fenced lib db c requests schedule q committed store pending)

include h

theorem store_eq (hnone : ∀ i, (q.pool.phase i).owes = false) : store = q.pool.db.toStore := by
  have hfences := h.fences
  rw [h.settled hnone] at hfences
  exact congrArg₂ Store.mk h.collections hfences

section Steps

variable (h : Fenced lib db c requests schedule q committed store pending) {i : Fin n} {db' : Db}
  {phase : Phase}
include h

section Advance

variable (hstore : db'.toStore = q.pool.db.toStore) (howes : (q.pool.phase i).owes = false)
  (howes' : phase.owes = false)
  (hplanned : ∀ w, phase = .planned w →
    q.pool.db.collections[c]?.map VersionedCollection.version = w.version →
    Current lib db requests schedule q.pool store i w)
  (hlocked : ∀ w, phase.holds = some w → Current lib db requests schedule q.pool store i w)

include hstore howes howes' hplanned hlocked

theorem advance
    (hlog : ∃ blocks block, db'.storage.entries = db.storage.entries ++ blocks.flatten ++ block ∧
      List.Forall₂ (fun x entries => Encodes lib x.write entries) committed blocks ∧
      (∀ j gate w, (q.pool.set i db' phase).phase j = .appended gate w → Encodes lib w block) ∧
      ((∀ j gate w, (q.pool.set i db' phase).phase j ≠ .appended gate w) → block = [])) :
    Fenced lib db c requests schedule
      { pool := q.pool.set i db' phase, published := q.published ++ eventsOf (q.pool.phase i).updates }
      committed store pending := by
  have hsame : ∀ j, ((q.pool.set i db' phase).phase j).owes = (q.pool.phase j).owes :=
    forall_set (fun j phase => phase.owes = (q.pool.phase j).owes) (howes'.trans howes.symm)
      fun _ _ => rfl
  have hcurrent : ∀ {j w}, Current lib db requests schedule q.pool store j w →
      Current lib db requests schedule (q.pool.set i db' phase) store j w := by
    rintro j w ⟨hnone, hctx⟩
    exact ⟨fun k => (hsame k).trans (hnone k), hctx⟩
  have hupdates : eventsOf (q.pool.phase i).updates = [] := by
    cases hphase : q.pool.phase i with
    | changed gate w answer =>
      rw [hphase] at howes
      cases howes
    | _ => rfl
  refine { h with collections := ?_, fences := ?_, published := ?_, single := ?_, owed := ?_
                  settled := ?_, planned := ?_, locked := ?_, log := hlog }
  · rw [h.collections, db_set, hstore]
  · rw [h.fences, db_set, hstore]
  · rw [h.published, hupdates, append_nil]
  · intro j k hj hk
    rw [hsame] at hj hk
    exact h.single j k hj hk
  · refine forall_set (fun _ phase => phase.owes = true → pending = phase.updates) ?_
      fun j _ => h.owed j
    exact fun hj => by cases howes'.symm.trans hj
  · exact fun hnone => h.settled fun j => (hsame j).symm.trans (hnone j)
  · intro j w hj hversion
    rw [db_set, hstore] at hversion
    rcases phase_set_cases hj with ⟨rfl, hown⟩ | ⟨-, hj⟩
    · exact hcurrent (hplanned w hown hversion)
    · exact hcurrent (h.planned j w hj hversion)
  · intro j w hj
    rcases set_cases Phase.holds hj with ⟨rfl, hown⟩ | ⟨-, hj⟩
    · exact hcurrent (hlocked w hown)
    · exact hcurrent (h.locked j w hj)

theorem move (hstorage : db'.storage = q.pool.db.storage)
    (hold : ∀ gate w, q.pool.phase i ≠ .appended gate w)
    (hnew : ∀ gate w, phase ≠ .appended gate w) :
    Fenced lib db c requests schedule
      { pool := q.pool.set i db' phase, published := q.published ++ eventsOf (q.pool.phase i).updates }
      committed store pending := by
  refine h.advance hstore howes howes' hplanned hlocked ?_
  obtain ⟨blocks, block, hblock, hall, htrailing⟩ := h.log
  exact ⟨blocks, block, by rw [hstorage, hblock], hall, Pool.Trailing.set htrailing hold hnew⟩

end Advance

theorem append (hsim : Simulates lib db c requests q.pool s) {nowNs : Nat} {gate : Gate} {w : Write}
    {sequences : List Nat} {entries : List StorageEntry}
    (hi : q.pool.phase i = .reserved gate w sequences)
    (hencode : encodeEntriesForSequences lib nowNs (w.batch.numbered lib sequences) sequences =
      .ok entries) :
    Fenced lib db c requests schedule
      { pool := q.pool.set i { q.pool.db with storage :=
          { q.pool.db.storage with entries := q.pool.db.storage.entries ++ entries } }
          (.appended gate w)
        published := q.published ++ eventsOf (q.pool.phase i).updates }
      committed store pending := by
  have hlength : sequences.length = w.batch.count := by
    rw [(hsim.reserved i gate w sequences hi).range, length_range']
  refine h.advance rfl (by rw [hi]; rfl) rfl (fun _ h => nomatch h) ?_ ?_
  · intro w' hw'
    exact h.locked i w' (by rw [hi]; exact hw')
  · obtain ⟨blocks, block, hblock, hall, htrailing⟩ := h.log
    have hencodes : Encodes lib w entries := ⟨nowNs, sequences, hlength, hencode⟩
    obtain ⟨rfl, hnew⟩ := Pool.Trailing.append htrailing (hsim.none_appended hi) hencodes
    refine ⟨blocks, entries, ?_, hall, hnew⟩
    rw [hblock, append_nil]

end Steps

variable {i : Fin n} {w : Write}

theorem change
    (hs : OnOne db c requests) (hsim : Simulates lib db c requests q.pool s) {gate : Gate}
    (hi : q.pool.phase i = .appended gate w) {cell' : VersionedCollection}
    (htakes : Takes lib w c s.current.cell cell') :
    ∃ x : Committed n, x.write = w ∧ Fenced lib db c requests schedule
      { pool := q.pool.set i { q.pool.db with toStore := q.pool.db.setCell c cell' }
          (.changed gate w (.bool true))
        published := q.published ++ eventsOf (q.pool.phase i).updates }
      (committed ++ [x]) (w.apply lib store).2 w.planned := by
  have hlocks := hsim.locks_of_appended hi
  obtain ⟨hnone, ctx, hctx, hplan⟩ := h.locked i w (by rw [hi]; rfl)
  have hstore := h.store_eq hnone
  have hpending := h.settled hnone
  subst hstore hpending
  have happly := htakes.write hsim.cell
  have hfences : Concurrent.fences w (.bool true) = w.planned := rfl
  have howes : ∀ j, (q.pool.phase j).owes = true → j = i :=
    fun j hj => by cases (hnone j).symm.trans hj
  refine ⟨⟨i, ctx, w⟩, rfl, h.serial.concat hplan, ?_, ?_, ?_, ?_, ?_, ?_, ?_, ?_, ?_, ?_⟩
  · intro x hx
    rcases mem_append.1 hx with hx | hx
    · exact h.calls x hx
    · cases mem_singleton.1 hx
      exact hctx
  · rw [happly]
    rfl
  · rw [happly]
    rfl
  · have hpublished := h.published
    rw [eventsOf, eventsOf, flatMap_nil, append_nil] at hpublished
    rw [hi, eventsOf, flatMap_append, flatMap_append, hpublished, flatMap_singleton]
    change _ = q.published ++ [] ++ _
    rw [append_nil]
    rfl
  · exact only_set Phase.owes h.single fun _ => howes
  · refine forall_set (fun _ phase => phase.owes = true → w.planned = phase.updates)
      (fun _ => hfences.symm) fun j hji hj => absurd (howes j hj) hji
  · intro hno
    have hown := hno i
    rw [phase_set_self] at hown
    cases hown
  · -- whoever has planned has read an older version
    intro j w' hj hversion
    obtain ⟨-, hj⟩ := phase_of_set hj nofun
    have hmatch := hsim.phases j
    rw [hj] at hmatch
    obtain ⟨t, ctx', -, hdecides, hfollows⟩ := hmatch
    rw [hdecides.version (hs.collection j), db_set] at hversion
    dsimp only [Store.setCell] at hversion
    rw [ExtTreeMap.getElem?_insert_self] at hversion
    have hequal : cell'.version = t.cell.version := Option.some.inj hversion
    have hlt := htakes.version_lt
    rcases hfollows with rfl | hbehind
    · omega
    · change t.cell.version < s.current.cell.version at hbehind
      omega
  · intro j w' hj
    rcases set_cases Phase.holds hj with ⟨-, hj⟩ | ⟨hji, hj⟩
    · cases hj
    · have hfree := hsim.others_unlocked hlocks hji
      have hmatch := hsim.phases j
      cases hphase : q.pool.phase j with
      | ready gate' w'' | reserved gate' w'' sequences | appended gate' w'' =>
        rw [hphase] at hmatch hfree
        cases hmatch.1
        cases hfree
      | _ =>
        rw [hphase] at hj
        cases hj
  · obtain ⟨blocks, block, hblock, hall, happended, -⟩ := h.log
    refine ⟨blocks ++ [block], [], ?_, ?_,
      trailing_nil (hsim.appended_alone hlocks) fun _ _ => nofun⟩
    · rw [flatten_append, flatten_singleton, append_nil, ← append_assoc]
      exact hblock
    · exact rel_append hall (.cons (happended i gate w hi) .nil)

theorem finish {gate : Gate} {answer : Answer} (hi : q.pool.phase i = .changed gate w answer)
    (result : Except CoreError Answer) :
    Fenced lib db c requests schedule
      { pool := q.pool.set i
          { q.pool.db with toStore := q.pool.db.applyPlanned (Concurrent.fences w answer) } (.done result)
        published := q.published ++ eventsOf (q.pool.phase i).updates }
      committed store [] := by
  have hi' : (q.pool.phase i).owes = true := by rw [hi]; rfl
  have hpending : pending = Concurrent.fences w answer := by
    rw [h.owed i hi', hi]
    rfl
  have howes : ∀ j, j ≠ i → (q.pool.phase j).owes = false := fun j hji =>
    Bool.eq_false_iff.2 fun howes => hji (h.single j i howes hi')
  -- while the update was outstanding, no plan was up to date
  have hstale : ∀ {j w'}, ¬ Current lib db requests schedule q.pool store j w' := by
    intro j w' hcurrent
    rw [hcurrent.1 i] at hi'
    cases hi'
  refine { h with collections := ?_, fences := ?_, published := ?_, single := ?_, owed := ?_
                  settled := fun _ => rfl, planned := ?_, locked := ?_, log := ?_ }
  · exact h.collections
  · rw [h.fences, hpending]
    rfl
  · rw [h.published, hpending, hi]
    exact (append_nil _).symm
  · exact only_set Phase.owes h.single (nomatch ·)
  · refine forall_set (fun _ phase => phase.owes = true → [] = phase.updates) (nomatch ·) ?_
    exact fun j hji hj => by cases (howes j hji).symm.trans hj
  · intro j w' hj hversion
    exact absurd (h.planned j w' (phase_of_set hj nofun).2 hversion) hstale
  · intro j w' hj
    rcases set_cases Phase.holds hj with ⟨-, hj⟩ | ⟨-, hj⟩
    · cases hj
    · exact absurd (h.locked j w' hj) hstale
  · obtain ⟨blocks, block, hblock, hall, htrailing⟩ := h.log
    refine ⟨blocks, block, hblock, hall, Pool.Trailing.set htrailing ?_ fun _ _ => nofun⟩
    rw [hi]
    exact fun _ _ => nofun

theorem plan (hs : OnOne db c requests) (hsim : Simulates lib db c requests q.pool s)
    (hnone : ∀ j, (q.pool.phase j).owes = false) {ctx : Ctx} (hmem : (i, ctx) ∈ schedule)
    {t : Seen} (hfollows : Optimistic.Follows (protocol lib db.config c requests) t s.current)
    (hplan : (requests i).localPlan lib (showing q.pool.db c (some t.cell)) ctx = some (.write w))
    (hversion : q.pool.db.collections[c]?.map VersionedCollection.version = w.version) :
    Current lib db requests schedule q.pool store i w := by
  have hdecides : Decides lib db.config c (requests i) ctx t.cell (.write w) :=
    ⟨_, hsim.sees hs t, hplan⟩
  rw [hsim.cell, hdecides.version (hs.collection i)] at hversion
  have hcurrent : t = s.current := by
    rcases hfollows with heq | hlt
    · exact heq
    · exact absurd (Option.some.inj hversion) (Nat.ne_of_gt hlt)
  have hshowing : (showing q.pool.db c (some t.cell)).toStore = store := by
    rw [h.store_eq hnone, hcurrent, ← hsim.cell]
    refine congrArg₂ Store.mk ?_ rfl
    apply ExtTreeMap.ext_getElem?
    intro c'
    rw [ExtTreeMap.getElem?_alter]
    by_cases hc' : c = c'
    · simp [hc']
    · simp [hc']
  have hsame : (requests i).localPlan lib { db with toStore := store } ctx = some (.write w) := by
    rw [← hplan]
    exact @localPlan_congr lib { db with toStore := store } (showing q.pool.db c (some t.cell))
      hshowing.symm hsim.config.symm (hs.stores.trans (hsim.sees hs t).stores.symm) (requests i) ctx
  refine ⟨hnone, ctx, hmem, ?_⟩
  rw [Request.plan, hsame, Option.getD_some]

theorem step (hjson : lib.codec.Total) (hs : OnOne db c requests)
    (hsim : Simulates lib db c requests q.pool s) {action : Fin n × Ctx} (hmem : action ∈ schedule)
    (hidx : Indexable lib action q.pool) (hsettled : Settled action q.pool) {q' : Observed n}
    (hstep : q.step lib requests action = some q') :
    ∃ committed' store' pending', Fenced lib db c requests schedule q' committed' store' pending' := by
  obtain ⟨p', hpool, rfl⟩ := Option.map_eq_some_iff.1 hstep
  obtain ⟨db', phase, hmoves, rfl⟩ := step_cases hpool
  obtain ⟨i, ctx⟩ := action
  generalize hi : q.pool.phase i = current at hmoves
  have hmatch := hsim.phases i
  rw [hi] at hmatch
  -- most steps only move the call on
  have hquiet : ∀ {phase : Phase}, current.owes = false → (∀ gate w, current ≠ .appended gate w) →
      phase.owes = false → (∀ gate w, phase ≠ .appended gate w) →
      (∀ w, phase = .planned w →
        q.pool.db.collections[c]?.map VersionedCollection.version = w.version →
        Current lib db requests schedule q.pool store i w) →
      (∀ w, phase.holds = some w → Current lib db requests schedule q.pool store i w) →
      ∀ nextSequence, ∃ committed' store' pending', Fenced lib db c requests schedule
        { pool := q.pool.set i { q.pool.db with nextSequence } phase
          published := q.published ++ eventsOf current.updates } committed' store' pending' := by
    intro phase howes hold howes' hnew hplanned hlocked nextSequence
    subst hi
    exact ⟨_, _, _, h.move rfl howes howes' hplanned hlocked rfl hold hnew⟩
  cases hmoves with
  | skip hnone => cases hnone.symm.trans (hs.collection i)
  | enter hc hgate | read hc hlock | answer hc hplan | yield hc hplan | retry hc hversion =>
    exact hquiet rfl (fun _ _ => nofun) rfl (fun _ _ hw => by cases hw) (fun _ hw => by cases hw)
      (fun _ hw => by cases hw) _
  | @plan c' cell w hc hplan =>
    cases hc.symm.trans (hs.collection i)
    obtain ⟨t, -, rfl, hfollows⟩ := hmatch
    refine hquiet rfl (fun _ _ => nofun) rfl (fun _ _ hw => by cases hw) ?_ (fun _ hw => by cases hw) _
    rintro w' hw'
    cases hw'
    exact h.plan hs hsim (hsettled _ hi) hmem hfollows hplan
  | @lock c' w hc hlock hversion =>
    cases hc.symm.trans (hs.collection i)
    refine hquiet rfl (fun _ _ => nofun) rfl (fun _ _ hw => by cases hw) (fun _ hw => by cases hw) ?_ _
    rintro w' hw'
    cases hw'
    exact h.planned i w hi hversion
  | planAlone => exact hmatch.elim
  | answerAlone => exact hmatch.elim
  | @reserve gate w =>
    refine hquiet rfl (fun _ _ => nofun) rfl (fun _ _ hw => by cases hw) (fun _ hw => by cases hw) ?_ _
    rintro w' hw'
    exact h.locked i w' (by rw [hi]; exact hw')
  | @append gate w sequences ns db' happend =>
    have hfaults : q.pool.db.storage.faults = [] := by rw [hsim.storage]; exact hs.faults
    have hopen : q.pool.db.storage.closed = false := by rw [hsim.storage]; exact hs.opened
    obtain ⟨entries, hencode, hok, -⟩ :=
      (hsim.reserved i gate w sequences hi).append hjson hfaults hopen ctx.nowNs
    cases hok.symm.trans happend
    have hfenced := h.append hsim hi hencode
    rw [hi] at hfenced
    exact ⟨_, _, _, hfenced⟩
  | refuse happend =>
    obtain ⟨db'', hok, -⟩ := hsim.append hjson hs hi
    cases hok.symm.trans happend
  | create hmissing =>
    obtain ⟨-, ctx', -, db₀, hsees, hplan⟩ := hmatch
    obtain ⟨m, hm⟩ := (Request.localPlan_local hplan (hs.collection i) hsees.stores).effect
    rw [hm, missing, ExtTreeMap.contains_eq_isSome_getElem?, hsim.cell] at hmissing
    cases hmissing
  | fail hmissing happly =>
    obtain ⟨-, ctx', -, hdecides⟩ := hmatch
    obtain ⟨cell', htakes⟩ := hdecides.takes (hs.collection i) (hidx _ _ hi)
    cases (htakes.apply hsim.cell).symm.trans happly
  | change hmissing happly =>
    obtain ⟨-, ctx', -, hdecides⟩ := hmatch
    obtain ⟨cell', htakes⟩ := hdecides.takes (hs.collection i) (hidx _ _ hi)
    cases (htakes.apply hsim.cell).symm.trans happly
    obtain ⟨x, -, hfenced⟩ := h.change hs hsim hi htakes
    rw [hi] at hfenced
    rw [retries_found]
    exact ⟨_, _, _, hfenced⟩
  | @finish gate w answer =>
    have hfenced := h.finish hi (w.reply answer)
    rw [hi] at hfenced
    exact ⟨_, _, _, hfenced⟩

end Fenced

/-- As long as no call plans while the fence update of another one is outstanding, the fences
remember what the writes of the log give when they are evaluated one after the other, and the
events published and enqueued are those of this evaluation. -/
theorem fences_follow_log (hjson : ∀ record, ∃ payload, lib.codec.toJson record = .ok payload)
    {db : Db} {c : String} {requests : Fin n → Request} (hs : OnOne db c requests)
    {schedule : List (Fin n × Ctx)} {q : Observed n}
    (hmeet : StepsMeet (Observed.step lib requests)
      (fun action q => Indexable lib action q.pool ∧ Settled action q.pool) schedule (.start db))
    (hrun : runSteps (Observed.step lib requests) schedule (.start db) = some q)
    (hdone : ∀ i, ∃ result, q.pool.phase i = .done result) :
    ∃ (committed : List (Committed n)) (blocks : List (List StorageEntry)),
      q.pool.db.storage.entries = db.storage.entries ++ blocks.flatten ∧
      List.Forall₂ (fun x entries => Encodes lib x.write entries) committed blocks ∧
      (∀ x ∈ committed, (x.call, x.ctx) ∈ schedule) ∧
      Serially lib db requests db.toStore committed q.pool.db.toStore ∧
      q.published = eventsOf (committed.flatMap fun x => x.write.planned) := by
  have hstep : ∀ action (q q' : Observed n),
      (∃ s, Simulates lib db c requests q.pool s ∧ ∃ committed store pending,
        Fenced lib db c requests schedule q committed store pending) →
      (action ∈ schedule ∧ Indexable lib action q.pool ∧ Settled action q.pool) →
      q.step lib requests action = some q' →
      ∃ s, Simulates lib db c requests q'.pool s ∧ ∃ committed store pending,
        Fenced lib db c requests schedule q' committed store pending := by
    rintro action q q' ⟨s, hsim, committed, store, pending, hfenced⟩ ⟨hmem, hidx, hsettled⟩ hstep
    obtain ⟨p', hpool, rfl⟩ := Option.map_eq_some_iff.1 hstep
    obtain ⟨s', -, hsim'⟩ := hsim.step hjson hs hidx hpool
    exact ⟨s', hsim', hfenced.step hjson hs hsim hmem hidx hsettled hstep⟩
  obtain ⟨cell, -, hstart⟩ := Simulates.start lib hs
  obtain ⟨s, hsim, committed, store, pending, hfenced⟩ := runSteps_invariant hstep
    ⟨_, hstart, _, _, _, Fenced.start⟩ (hmeet.mem fun _ h => h) hrun
  have hnone : ∀ i, (q.pool.phase i).owes = false := by
    intro i
    obtain ⟨result, hresult⟩ := hdone i
    rw [hresult]
    rfl
  obtain ⟨blocks, block, hlog, hblocks, -, hempty⟩ := hfenced.log
  refine ⟨committed, blocks, ?_, hblocks, hfenced.calls, ?_, ?_⟩
  · rw [hlog, hempty, append_nil]
    intro i gate w hi
    obtain ⟨result, hresult⟩ := hdone i
    cases hi.symm.trans hresult
  · rw [← hfenced.store_eq hnone]
    exact hfenced.serial
  · rw [hfenced.published, hfenced.settled hnone]
    exact (append_nil _).symm

/-! ### Two moves of a truck -/

def remembered (r : Registry) (channel id : String) : Option Bool :=
  r.channels.fences[channel]?.bind fun stored => stored.state.objects[id]?

namespace Yard

def inBounds (b : BoundingBox) (lat lon : F64) : Bool :=
  b.minLat.lt lat && lat.lt b.maxLat && b.minLon.lt lon && lon.lt b.maxLon

open Sample in
def yardLib : Lib :=
  { blankLib with
    containsGeo := fun area geo => match area, geo with
      | .bounds b, .point lat lon _ => .ok (inBounds b lat lon)
      | _, _ => .ok false
    intersectsSegment := fun area x y => match area with
      | .bounds b => .ok (inBounds b x.1 x.2 != inBounds b y.1 y.2)
      | _ => .ok false
    codec := { blankLib.codec with toJson := fun
      | .command (.setPersisted { object := .point _ lon _, .. }) =>
        .ok [if lon = F64.zero then 1 else 2]
      | _ => .ok [] } }

theorem yard_json (record : LogRecord) : ∃ payload, yardLib.codec.toJson record = .ok payload := by
  dsimp only [yardLib]
  split <;> exact ⟨_, rfl⟩

def yardFence : GeofenceDef where
  collection := "fleet"
  query := .within
    (.bounds ⟨F64.minusNinety, F64.minusNinety, F64.ninety, F64.ninety⟩) {}
  detect := []
  commands := []

open Sample in
def fencedFleet : Db :=
  { fleetAndYard with geofences := ({} : Registry).setChannel "yard" yardFence }

def inAndOut : Fin 2 → Request := fun i =>
  .set { collection := "fleet", id := "truck", fields := [], expireSeconds := none
         object := .point F64.zero (if i = 0 then F64.zero else F64.oneEighty) none
         condition := .always }

open Sample in
/-- The second call has read the collection before the first one changes it, and plans again. -/
theorem moves_in_turn :
    let schedule := replicate 2 ((1 : Fin 2), sampleCtx) ++ replicate 8 (0, sampleCtx) ++
      replicate 9 (1, sampleCtx)
    ∃ q committed, runSteps (Observed.step yardLib inAndOut) schedule (.start fencedFleet) = some q ∧
      remembered q.pool.db.geofences "yard" "truck" = some false ∧
      q.published.map GeofenceEvent.detect = [.enter, .exit] ∧
      Serially yardLib fencedFleet inAndOut fencedFleet.toStore committed q.pool.db.toStore ∧
      q.published = eventsOf (committed.flatMap fun x => x.write.planned) := by
  intro schedule
  have hone : OnOne fencedFleet "fleet" inAndOut := by
    refine ⟨rfl, rfl, rfl, fun last hlast => ?_, fun _ => rfl, rfl, rfl⟩
    cases hlast
  have hmeet : StepsMeet (Observed.step yardLib inAndOut)
      (fun action q => Indexable yardLib action q.pool ∧ Settled action q.pool) schedule
      (.start fencedFleet) := by
    refine stepsMeet_of_checkSteps (fun action q => (match q.pool.phase action.1 with
      | .appended _ w => w.effect.indexable yardLib
      | .read _ => !(q.pool.phase 0).owes && !(q.pool.phase 1).owes
      | _ => true)) ?_ rfl
    intro action q hcheck
    constructor
    · intro gate w hphase
      rw [hphase] at hcheck
      exact hcheck
    · intro cell hphase j
      rw [hphase] at hcheck
      obtain ⟨h0, h1⟩ := (Bool.and_eq_true _ _).mp hcheck
      match j with
      | 0 => exact Bool.not_eq_true' _ ▸ h0
      | 1 => exact Bool.not_eq_true' _ ▸ h1
  have hdone : ∀ q, runSteps (Observed.step yardLib inAndOut) schedule (.start fencedFleet) =
      some q → ∀ i, ∃ result, q.pool.phase i = .done result := by
    intro q hq
    cases hq
    exact fun
      | 0 => ⟨_, rfl⟩
      | 1 => ⟨_, rfl⟩
  have h := fun q hq => @fences_follow_log yardLib 2 yard_json fencedFleet "fleet" inAndOut hone
    schedule q hmeet hq (hdone q hq)
  obtain ⟨committed, blocks, -, -, -, hserial, hpublished⟩ := h _ rfl
  exact ⟨_, committed, rfl, rfl, rfl, hserial, hpublished⟩

open Sample in
/-- The first call updates the fence only after the second one has planned, written and updated
it: the log ends with the truck outside, the fence remembers it inside, and the exit is reported
as a crossing. -/
theorem overtaken_fence_update :
    (∃ q, runSteps (Observed.step yardLib inAndOut)
        (replicate 7 ((0 : Fin 2), sampleCtx) ++ replicate 8 (1, sampleCtx) ++
          [(0, sampleCtx)]) (.start fencedFleet) = some q ∧
      (∀ i, q.pool.phase i = .done (.ok (.bool true))) ∧
      q.pool.db.storage.entries.map StorageEntry.command = [[1], [2]] ∧
      remembered q.pool.db.geofences "yard" "truck" = some true ∧
      q.published.map GeofenceEvent.detect = [.cross, .enter]) ∧
    (let inside := (fencedFleet.perform yardLib sampleCtx (inAndOut 0)).2
     let outside := (inside.perform yardLib sampleCtx (inAndOut 1)).2
     outside.storage.entries.map StorageEntry.command = [[1], [2]] ∧
      remembered outside.geofences "yard" "truck" = some false) := by
  refine ⟨⟨_, rfl, fun i => ?_, rfl, rfl, rfl⟩, rfl, rfl⟩
  match i with
  | 0 => rfl
  | 1 => rfl

end Yard

end LatLng.Concurrent
