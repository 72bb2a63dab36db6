import LatLng.Core.Meaning
import LatLng.Lib.Schedule

/-! Calls that run at the same time. A call takes one step for each section it holds a lock
in and for each storage call; between its steps the others may take theirs. The backend is
one that keeps a log. -/

namespace LatLng.Concurrent

open LatLng.Core Storage

inductive Gate where
  | shared
  | exclusive
deriving DecidableEq, Repr

inductive Phase where
  | start
  | reading
  | read (cell : Option VersionedCollection)
  | planned (w : Write)
  | waiting
  | ready (gate : Gate) (w : Write)
  | reserved (gate : Gate) (w : Write) (sequences : List Nat)
  | appended (gate : Gate) (w : Write)
  | changed (gate : Gate) (w : Write) (answer : Answer)
  | done (result : Except CoreError Answer)

namespace Phase

def gate? : Phase → Option Gate
  | .reading => some .shared
  | .read _ => some .shared
  | .planned _ => some .shared
  | .ready gate _ => some gate
  | .reserved gate _ _ => some gate
  | .appended gate _ => some gate
  | .changed gate _ _ => some gate
  | _ => none

def locks : Phase → Bool
  | .ready .shared _ => true
  | .reserved .shared _ _ => true
  | .appended .shared _ => true
  | _ => false

end Phase

structure Pool (n : Nat) where
  db : Db
  phase : Fin n → Phase

def showing (db : Db) (c : String) (cell : Option VersionedCollection) : Db :=
  { db with collections := db.collections.alter c fun _ => cell }

def missing (s : Store) : Effect → Option String
  | .mutate c _ => if s.collections.contains c then none else some c
  | _ => none

/-- Under the shared gate FSET, EXPIRE and PERSIST start over when their object is gone. -/
def retries : Gate → Effect → Answer → Bool
  | .shared, .mutate _ (.insertFields _ _), .bool false => true
  | .shared, .mutate _ (.setExpiry _ _), .bool false => true
  | _, _, _ => false

theorem retries_found (gate : Gate) (effect : Effect) :
    retries gate effect (.bool true) = false := by
  cases gate <;> cases effect with
  | mutate c m => cases m <;> rfl
  | _ => rfl

def fences (w : Write) : Answer → List Geofence.PreparedMutation
  | .bool false => match w.effect with
    | .mutate _ (.insertFields _ _) => []
    | _ => w.planned
  | _ => w.planned

namespace Pool

variable {n : Nat}

def start (db : Db) : Pool n := { db, phase := fun _ => .start }

def set (p : Pool n) (i : Fin n) (db : Db) (phase : Phase) : Pool n :=
  { db, phase := Function.update p.phase i phase }

def gateHeld (p : Pool n) (gate : Gate) : Bool :=
  decide (∃ i, (p.phase i).gate? = some gate)

def locked (requests : Fin n → Request) (p : Pool n) (c : String) : Bool :=
  decide (∃ i, (p.phase i).locks = true ∧ (requests i).collection? = some c)

variable (lib : Lib) (requests : Fin n → Request)

def next (p : Pool n) (i : Fin n) (ctx : Ctx) : Option (Db × Phase) :=
  match p.phase i with
  | .start =>
    match (requests i).collection? with
    | none => some (p.db, .waiting)
    | some _ => if p.gateHeld .exclusive then none else some (p.db, .reading)
  | .reading =>
    match (requests i).collection? with
    | none => none
    | some c => if p.locked requests c then none else some (p.db, .read p.db.collections[c]?)
  | .read cell =>
    match (requests i).collection? with
    | none => none
    | some c =>
      match (requests i).localPlan lib (showing p.db c cell) ctx with
      | none => some (p.db, .waiting)
      | some (.done result) => some (p.db, .done result)
      | some (.write w) => some (p.db, .planned w)
  | .planned w =>
    match (requests i).collection? with
    | none => none
    | some c =>
      if p.locked requests c then none
      else if p.db.collections[c]?.map VersionedCollection.version = w.version then
        some (p.db, .ready .shared w)
      else some (p.db, .reading)
  | .waiting =>
    if p.gateHeld .shared || p.gateHeld .exclusive then none
    else
      match (requests i).exclusivePlan lib p.db ctx with
      | .done result => some (p.db, .done result)
      | .write w => some (p.db, .ready .exclusive w)
  | .ready gate w =>
    let (sequences, db) := p.db.reserveSequences w.batch.count
    some (db, .reserved gate w sequences)
  | .reserved gate w sequences =>
    match p.db.appendNumbered lib ctx.nowNs (w.batch.numbered lib sequences) sequences with
    | (.error e, db) => some (db, .done (.error e))
    | (.ok _, db) => some (db, .appended gate w)
  | .appended gate w =>
    match missing p.db.toStore w.effect with
    | some c =>
      some ({ p.db with toStore := p.db.setCell c (p.db.ensureCollectionCell c) }, .appended gate w)
    | none =>
      match w.effect.apply lib p.db.toStore with
      | (.error e, store) => some ({ p.db with toStore := store }, .done (.error e))
      | (.ok answer, store) =>
        some ({ p.db with toStore := store },
          if retries gate w.effect answer then .reading else .changed gate w answer)
  | .changed _ w answer =>
    some ({ p.db with toStore := p.db.applyPlanned (fences w answer) }, .done (w.reply answer))
  | .done _ => none

def step (action : Fin n × Ctx) (p : Pool n) : Option (Pool n) :=
  (p.next lib requests action.1 action.2).map fun (db, phase) => p.set action.1 db phase

/-! ### What a step can do -/

inductive Moves (p : Pool n) (i : Fin n) (ctx : Ctx) : Phase → Db → Phase → Prop
  | skip (h : (requests i).collection? = none) : Moves p i ctx .start p.db .waiting
  | enter {c : String} (h : (requests i).collection? = some c)
    (hgate : p.gateHeld .exclusive = false) : Moves p i ctx .start p.db .reading
  | read {c : String} (h : (requests i).collection? = some c)
    (hlock : p.locked requests c = false) : Moves p i ctx .reading p.db (.read p.db.collections[c]?)
  | plan {c : String} {cell : Option VersionedCollection} {w : Write}
    (h : (requests i).collection? = some c)
    (hplan : (requests i).localPlan lib (showing p.db c cell) ctx = some (.write w)) :
    Moves p i ctx (.read cell) p.db (.planned w)
  | answer {c : String} {cell : Option VersionedCollection} {result : Except CoreError Answer}
    (h : (requests i).collection? = some c)
    (hplan : (requests i).localPlan lib (showing p.db c cell) ctx = some (.done result)) :
    Moves p i ctx (.read cell) p.db (.done result)
  | yield {c : String} {cell : Option VersionedCollection} (h : (requests i).collection? = some c)
    (hplan : (requests i).localPlan lib (showing p.db c cell) ctx = none) :
    Moves p i ctx (.read cell) p.db .waiting
  | lock {c : String} {w : Write} (h : (requests i).collection? = some c)
    (hlock : p.locked requests c = false)
    (hversion : p.db.collections[c]?.map VersionedCollection.version = w.version) :
    Moves p i ctx (.planned w) p.db (.ready .shared w)
  | retry {c : String} {w : Write} (h : (requests i).collection? = some c)
    (hversion : p.db.collections[c]?.map VersionedCollection.version ≠ w.version) :
    Moves p i ctx (.planned w) p.db .reading
  | planAlone {w : Write} (hshared : p.gateHeld .shared = false)
    (hexclusive : p.gateHeld .exclusive = false)
    (hplan : (requests i).exclusivePlan lib p.db ctx = .write w) :
    Moves p i ctx .waiting p.db (.ready .exclusive w)
  | answerAlone {result : Except CoreError Answer} (hshared : p.gateHeld .shared = false)
    (hexclusive : p.gateHeld .exclusive = false)
    (hplan : (requests i).exclusivePlan lib p.db ctx = .done result) :
    Moves p i ctx .waiting p.db (.done result)
  | reserve {gate : Gate} {w : Write} :
    Moves p i ctx (.ready gate w) { p.db with nextSequence := p.db.nextSequence + w.batch.count }
      (.reserved gate w (List.range' (p.db.nextSequence + 1) w.batch.count))
  | append {gate : Gate} {w : Write} {sequences ns : List Nat} {db : Db}
    (h : p.db.appendNumbered lib ctx.nowNs (w.batch.numbered lib sequences) sequences =
      (.ok ns, db)) :
    Moves p i ctx (.reserved gate w sequences) db (.appended gate w)
  | refuse {gate : Gate} {w : Write} {sequences : List Nat} {e : CoreError} {db : Db}
    (h : p.db.appendNumbered lib ctx.nowNs (w.batch.numbered lib sequences) sequences =
      (.error e, db)) :
    Moves p i ctx (.reserved gate w sequences) db (.done (.error e))
  | create {gate : Gate} {w : Write} {c : String} (h : missing p.db.toStore w.effect = some c) :
    Moves p i ctx (.appended gate w)
      { p.db with toStore := p.db.setCell c (p.db.ensureCollectionCell c) } (.appended gate w)
  | fail {gate : Gate} {w : Write} {e : CoreError} {store : Store}
    (hmissing : missing p.db.toStore w.effect = none)
    (h : w.effect.apply lib p.db.toStore = (.error e, store)) :
    Moves p i ctx (.appended gate w) { p.db with toStore := store } (.done (.error e))
  | change {gate : Gate} {w : Write} {answer : Answer} {store : Store}
    (hmissing : missing p.db.toStore w.effect = none)
    (h : w.effect.apply lib p.db.toStore = (.ok answer, store)) :
    Moves p i ctx (.appended gate w) { p.db with toStore := store }
      (if retries gate w.effect answer then .reading else .changed gate w answer)
  | finish {gate : Gate} {w : Write} {answer : Answer} :
    Moves p i ctx (.changed gate w answer)
      { p.db with toStore := p.db.applyPlanned (fences w answer) } (.done (w.reply answer))

variable {lib requests}

@[simp] theorem db_set (p : Pool n) (i : Fin n) (db : Db) (phase : Phase) :
    (p.set i db phase).db = db := rfl

@[simp] theorem phase_set_self (p : Pool n) (i : Fin n) (db : Db) (phase : Phase) :
    (p.set i db phase).phase i = phase := by
  simp [set]

theorem phase_set_of_ne (p : Pool n) {i j : Fin n} (h : j ≠ i) (db : Db) (phase : Phase) :
    (p.set i db phase).phase j = p.phase j := by
  simp [set, h]

section Set

variable {p : Pool n} {i j : Fin n} {db : Db} {phase : Phase}

theorem set_cases {α : Type} (f : Phase → α) {x : α} (h : f ((p.set i db phase).phase j) = x) :
    j = i ∧ f phase = x ∨ j ≠ i ∧ f (p.phase j) = x := by
  by_cases hji : j = i
  · subst hji
    rw [phase_set_self] at h
    exact .inl ⟨rfl, h⟩
  · rw [p.phase_set_of_ne hji] at h
    exact .inr ⟨hji, h⟩

theorem phase_set_cases {x : Phase} (h : (p.set i db phase).phase j = x) :
    j = i ∧ phase = x ∨ j ≠ i ∧ p.phase j = x := set_cases id h

theorem phase_of_set {x : Phase} (h : (p.set i db phase).phase j = x) (hne : phase ≠ x) :
    j ≠ i ∧ p.phase j = x := (phase_set_cases h).resolve_left fun hi => hne hi.2

theorem forall_set (P : Fin n → Phase → Prop) (hself : P i phase)
    (hothers : ∀ j, j ≠ i → P j (p.phase j)) (j : Fin n) : P j ((p.set i db phase).phase j) :=
  (Function.forall_update_iff p.phase P).2 ⟨hself, hothers⟩ j

theorem only_set (f : Phase → Bool) (h : ∀ j k, f (p.phase j) → f (p.phase k) → j = k)
    (hnew : f phase → ∀ j, f (p.phase j) → j = i) (j k : Fin n)
    (hj : f ((p.set i db phase).phase j) = true) (hk : f ((p.set i db phase).phase k) = true) :
    j = k := by
  rcases set_cases f hj with ⟨hji, hj⟩ | ⟨hji, hj⟩
  · rcases set_cases f hk with ⟨hki, -⟩ | ⟨hki, hk⟩
    · exact hji.trans hki.symm
    · exact absurd (hnew hj k hk) hki
  · rcases set_cases f hk with ⟨hki, hk⟩ | ⟨hki, hk⟩
    · exact absurd (hnew hk j hj) hji
    · exact h j k hj hk

/-- The last entries of the log are the records of the call that still has to change the state. -/
def Trailing (p : Pool n) (records : Write → List StorageEntry → Prop)
    (block : List StorageEntry) : Prop :=
  (∀ i gate w, p.phase i = .appended gate w → records w block) ∧
    ((∀ i gate w, p.phase i ≠ .appended gate w) → block = [])

variable {records : Write → List StorageEntry → Prop} {block : List StorageEntry}

theorem Trailing.set (h : p.Trailing records block) (hold : ∀ gate w, p.phase i ≠ .appended gate w)
    (hnew : ∀ gate w, phase ≠ .appended gate w) : (p.set i db phase).Trailing records block := by
  refine ⟨fun j gate w hj => ?_, fun hall => h.2 fun j gate w hj => ?_⟩
  · exact h.1 j gate w (phase_of_set hj (hnew gate w)).2
  · have hji : j ≠ i := by
      rintro rfl
      exact hold gate w hj
    exact hall j gate w (by rwa [p.phase_set_of_ne hji])

theorem Trailing.append (h : p.Trailing records block) {gate : Gate} {w : Write}
    (hold : ∀ j gate' w', p.phase j ≠ .appended gate' w') {entries : List StorageEntry}
    (hw : records w entries) :
    block = [] ∧ (p.set i db (.appended gate w)).Trailing records entries := by
  refine ⟨h.2 hold, fun j gate' w' hj => ?_, fun hall => ?_⟩
  · rcases phase_set_cases hj with ⟨-, heq⟩ | ⟨-, hj⟩
    · cases heq
      exact hw
    · exact absurd hj (hold j gate' w')
  · exact absurd (p.phase_set_self i _ _) (hall i gate w)

theorem trailing_nil (hothers : ∀ j gate w, p.phase j = .appended gate w → j = i)
    (hnew : ∀ gate w, phase ≠ .appended gate w) : (p.set i db phase).Trailing records [] := by
  refine ⟨fun j gate w hj => ?_, fun _ => rfl⟩
  obtain ⟨hji, hj⟩ := phase_of_set hj (hnew gate w)
  exact absurd (hothers j gate w hj) hji

end Set

variable {p : Pool n}

theorem moves_of_next {i : Fin n} {ctx : Ctx} {db : Db} {phase : Phase}
    (h : p.next lib requests i ctx = some (db, phase)) :
    p.Moves lib requests i ctx (p.phase i) db phase := by
  rw [next] at h
  generalize p.phase i = current at h ⊢
  cases current with
  | start =>
    dsimp only at h
    split at h
    next hc =>
      cases h
      exact .skip hc
    next c hc =>
      split at h
      · cases h
      next hgate =>
        cases h
        exact .enter hc (Bool.eq_false_iff.2 hgate)
  | reading =>
    dsimp only at h
    split at h
    · cases h
    next c hc =>
      split at h
      · cases h
      next hlock =>
        cases h
        exact .read hc (Bool.eq_false_iff.2 hlock)
  | read cell =>
    dsimp only at h
    split at h
    · cases h
    next c hc =>
      split at h
      next hplan =>
        cases h
        exact .yield hc hplan
      next result hplan =>
        cases h
        exact .answer hc hplan
      next w hplan =>
        cases h
        exact .plan hc hplan
  | planned w =>
    dsimp only at h
    split at h
    · cases h
    next c hc =>
      split at h
      · cases h
      next hlock =>
        split at h
        next hversion =>
          cases h
          exact .lock hc (Bool.eq_false_iff.2 hlock) hversion
        next hversion =>
          cases h
          exact .retry hc hversion
  | waiting =>
    dsimp only at h
    split at h
    · cases h
    next hgate =>
      obtain ⟨hshared, hexclusive⟩ := Bool.or_eq_false_iff.1 (Bool.eq_false_iff.2 hgate)
      split at h
      next result hplan =>
        cases h
        exact .answerAlone hshared hexclusive hplan
      next w hplan =>
        cases h
        exact .planAlone hshared hexclusive hplan
  | ready gate w =>
    cases h
    exact .reserve
  | reserved gate w sequences =>
    dsimp only at h
    split at h
    next e db' happend =>
      cases h
      exact .refuse happend
    next ns db' happend =>
      cases h
      exact .append happend
  | appended gate w =>
    dsimp only at h
    split at h
    next c hmissing =>
      cases h
      exact .create hmissing
    next hmissing =>
      split at h
      next e store happly =>
        cases h
        exact .fail hmissing happly
      next answer store happly =>
        cases h
        exact .change hmissing happly
  | changed gate w answer =>
    cases h
    exact .finish
  | done result => cases h

theorem step_cases {action : Fin n × Ctx} {p' : Pool n} (h : p.step lib requests action = some p') :
    ∃ db phase, p.Moves lib requests action.1 action.2 (p.phase action.1) db phase ∧
      p' = p.set action.1 db phase := by
  obtain ⟨⟨db, phase⟩, hnext, rfl⟩ := Option.map_eq_some_iff.1 h
  exact ⟨db, phase, moves_of_next hnext, rfl⟩

theorem phase_step_of_ne {action : Fin n × Ctx} {p' : Pool n}
    (h : p.step lib requests action = some p') {j : Fin n} (hj : j ≠ action.1) :
    p'.phase j = p.phase j := by
  obtain ⟨db, phase, -, rfl⟩ := step_cases h
  exact p.phase_set_of_ne hj db phase

theorem gateHeld_eq_false {gate : Gate} :
    p.gateHeld gate = false ↔ ∀ i, (p.phase i).gate? ≠ some gate := by
  simp [gateHeld]

theorem gate_eq_none (hshared : p.gateHeld .shared = false)
    (hexclusive : p.gateHeld .exclusive = false) (i : Fin n) : (p.phase i).gate? = none := by
  cases hi : (p.phase i).gate? with
  | none => rfl
  | some gate =>
    cases gate with
    | shared => exact absurd hi (gateHeld_eq_false.1 hshared i)
    | exclusive => exact absurd hi (gateHeld_eq_false.1 hexclusive i)

theorem locked_eq_false {c : String} :
    p.locked requests c = false ↔
      ∀ i, (p.phase i).locks → (requests i).collection? ≠ some c := by
  simp [locked]

end Pool

end LatLng.Concurrent
