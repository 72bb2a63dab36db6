import LatLng.Concurrent.Pool
import LatLng.Core.Admissible
import LatLng.Core.Sample

/-! Writers on different collections. Sequence numbers are reserved in one step and appended
in another, so a writer whose numbers another one has overtaken is refused. -/

namespace LatLng.Concurrent

open LatLng.Core Storage LatLng.Lib List Pool Request

variable {lib : Lib} {n : Nat}

variable (lib) in
/-- SET, FSET, DEL and EXPIRE calls on different existing collections of a database whose
backend works; each of them succeeds when it is made alone. -/
structure Independent (db : Db) (requests : Fin n → Request) : Prop where
  faults : db.storage.faults = []
  opened : db.storage.closed = false
  stores : db.storage.storesCommandLog = true
  basic : ∀ i, (requests i).isBasic = true
  found : ∀ i, ∃ c cell, (requests i).collection? = some c ∧ db.collections[c]? = some cell
  apart : ∀ i j, i ≠ j → (requests i).collection? ≠ (requests j).collection?
  valid : ∀ i, ∃ ctx, (db.perform lib ctx (requests i)).1.isOk = true

/-- Two databases that differ in other collections, the state of fences and the log only. -/
structure Alike (c : String) (db db' : Db) : Prop where
  cell : db'.collections[c]? = db.collections[c]?
  config : db'.config = db.config
  stores : db'.storage.storesCommandLog = db.storage.storesCommandLog
  channels : db'.geofences.channels.defs = db.geofences.channels.defs
  hooks : db'.geofences.hooks.defs = db.geofences.hooks.defs

variable (lib) in
def Plans (db : Db) (request : Request) (plan : Plan) : Prop :=
  ∃ c db' ctx, request.collection? = some c ∧ Alike c db db' ∧
    (request.localPlan lib db' ctx = some plan ∨ request.exclusivePlan lib db' ctx = plan)

variable (lib) in
def Records (db : Db) (request : Request) (entries : List StorageEntry) : Prop :=
  ∃ w sequences nowNs, Plans lib db request (.write w) ∧
    encodeEntriesForSequences lib nowNs (w.batch.numbered lib sequences) sequences = .ok entries

def InOrder (action : Fin n × Ctx) (p : Pool n) : Prop :=
  ∀ gate w sequences, p.phase action.1 = .reserved gate w sequences →
    ∀ j gate' w' sequences', j ≠ action.1 → p.phase j = .reserved gate' w' sequences' →
      sequences.headD 0 < sequences'.headD 0

/-! ### What the calls plan -/

namespace Independent

variable {db : Db} {requests : Fin n → Request} (h : Independent lib db requests) {i : Fin n}
include h

theorem writable_admissible (i : Fin n) :
    db.config.readOnly = false ∧ (requests i).Admissible lib db.view := by
  obtain ⟨c, cell, hc, hcell⟩ := h.found i
  obtain ⟨ctx, hok⟩ := h.valid i
  exact admissible_of_perform (h.basic i) hc hcell h.stores hok

theorem passes {plan : Plan} (hplans : Plans lib db (requests i) plan) : plan.Passes lib := by
  obtain ⟨c, db', ctx, hc, halike, hplan⟩ := hplans
  obtain ⟨c', cell, hc', hcell⟩ := h.found i
  cases hc.symm.trans hc'
  obtain ⟨hwritable, hadmissible⟩ := h.writable_admissible i
  have hview : db.view.collections[c]? = db'.view.collections[c]? := by
    rw [Store.collections_view, Store.collections_view, halike.cell]
  have hcell' := halike.cell.trans hcell
  have hwritable' : db'.config.readOnly = false := by rw [halike.config, hwritable]
  have hadmissible' := hadmissible.congr hc hview
  rcases hplan with hlocal | rfl
  · exact localPlan_passes hc hcell' hwritable' (halike.stores.trans h.stores)
      hadmissible' hlocal
  · exact exclusivePlan_passes ctx hc hcell' hwritable' hadmissible'

theorem write {w : Write} (hplans : Plans lib db (requests i) (.write w)) {c : String}
    (hc : (requests i).collection? = some c) :
    (∃ m, w.effect = .mutate c m) ∧ w.effect.indexable lib ∧
      (∃ ctx, w.batch.commands = (requests i).commands ctx db.view) ∧
      ∀ v : View, v.collections[c]? = db.view.collections[c]? →
        ∃ aim, w.Intended lib v aim := by
  have hidx : w.effect.indexable lib = true := h.passes hplans
  obtain ⟨c', db', ctx, hc', halike, hplan⟩ := hplans
  cases hc.symm.trans hc'
  have hview : db'.view.collections[c]? = db.view.collections[c]? := by
    rw [Store.collections_view, Store.collections_view, halike.cell]
  have hintended : w.Intended lib db'.view ((requests i).aim lib db') := by
    rcases hplan with hlocal | hexclusive
    · exact localPlan_intended hlocal
    · have := @exclusivePlan_intended lib db' ctx (requests i)
      rwa [hexclusive] at this
  have hmeans : w.batch.commands = (requests i).commands ctx db.view := by
    rw [← commands_congr hc hview]
    rcases hplan with hlocal | hexclusive
    · exact localPlan_means hlocal
    · have := exclusivePlan_means lib db' ctx (requests i)
      rwa [hexclusive] at this
  obtain ⟨m, hm⟩ := hintended.intends.mutates hmeans (h.basic i) hc
  refine ⟨⟨m, hm⟩, hidx, ⟨ctx, hmeans⟩, fun v hv => ⟨_, hintended.congr hm ?_⟩⟩
  rw [hv, hview]

theorem counted {w : Write} (hplans : Plans lib db (requests i) (.write w)) :
    ∀ last ∈ db.storage.entries.getLast?, last.sequence ≤ db.nextSequence := by
  obtain ⟨c, cell, hc, hcell⟩ := h.found i
  obtain ⟨-, -, ⟨ctx', hcommands⟩, hintended⟩ := h.write hplans hc
  obtain ⟨aim, haim⟩ := hintended db.view rfl
  have hne : (requests i).commands ctx' db.view ≠ [] := hcommands ▸ haim.intends.commands_ne_nil
  obtain ⟨ctx, hok⟩ := h.valid i
  cases hplan : (requests i).plan lib db ctx with
  | write w' => exact Db.counted_of_perform h.stores hplan hok
  | done result =>
    -- alone, the call would have answered without a write: it has nothing to log
    rw [Db.perform, hplan] at hok
    have hmeans : (Plan.done result).Means ((requests i).commands ctx db.view) := by
      rw [← hplan, plan]
      cases hlocal : (requests i).localPlan lib db ctx with
      | none => exact exclusivePlan_means lib db ctx (requests i)
      | some plan => exact localPlan_means hlocal
    cases result with
    | error e => cases hok
    | ok a =>
      exact absurd (((requests i).commands_eq_nil_iff (h.basic i) db.view ctx ctx').1
        (hmeans a rfl).2) hne

end Independent

/-! ### What holds in every state of a run in order -/

namespace Phase

def pending : Phase → Bool
  | .changed _ _ _ => false
  | .done _ => false
  | _ => true

def logged : Phase → Bool
  | .appended _ _ => true
  | .changed _ _ _ => true
  | _ => false

def early : Phase → Bool
  | .start => true
  | .reading => true
  | .read _ => true
  | .planned _ => true
  | .waiting => true
  | .ready _ _ => true
  | _ => false

def left : Phase → Nat
  | .start => 8
  | .reading => 7
  | .read _ => 6
  | .planned _ => 5
  | .waiting => 5
  | .ready _ _ => 4
  | .reserved _ _ _ => 3
  | .appended _ _ => 2
  | .changed _ _ _ => 1
  | .done _ => 0

variable (lib) in
def Fine (db : Db) (request : Request) : Phase → Prop
  | .read cell => ∀ c, request.collection? = some c → cell = db.collections[c]?
  | .planned w => Plans lib db request (.write w) ∧ ∀ c, request.collection? = some c →
    w.version = db.collections[c]?.map VersionedCollection.version
  | .ready _ w => Plans lib db request (.write w)
  | .reserved _ w _ => Plans lib db request (.write w)
  | .appended _ w => Plans lib db request (.write w)
  | .changed _ w answer => ∃ b, w.reply answer = .ok b
  | .done result => result.isOk = true
  | _ => True

end Phase

variable (lib) in
structure LogOf (db : Db) (requests : Fin n → Request) (p : Pool n) (order : List (Fin n))
    (blocks : Fin n → List StorageEntry) : Prop where
  nodup : order.Nodup
  log : p.db.storage.entries = db.storage.entries ++ order.flatMap blocks
  records : ∀ i ∈ order, Records lib db (requests i) (blocks i)

variable {db : Db} {requests : Fin n → Request} {p : Pool n} {i : Fin n}

theorem LogOf.snoc {p' : Pool n} {order : List (Fin n)}
    {blocks : Fin n → List StorageEntry} {entries : List StorageEntry}
    (h : LogOf lib db requests p order blocks) (hfresh : i ∉ order)
    (hrecords : Records lib db (requests i) entries)
    (hlog : p'.db.storage.entries = p.db.storage.entries ++ entries) :
    LogOf lib db requests p' (order ++ [i]) (Function.update blocks i entries) := by
  have hblocks : ∀ j ∈ order, Function.update blocks i entries j = blocks j := by
    intro j hj
    refine Function.update_of_ne ?_ _ _
    rintro rfl
    exact hfresh hj
  refine ⟨?_, ?_, ?_⟩
  · refine nodup_append.2 ⟨h.nodup, nodup_singleton i, ?_⟩
    rintro a ha b hb rfl
    cases mem_singleton.1 hb
    exact hfresh ha
  · rw [hlog, h.log, flatMap_append, flatMap_congr hblocks, flatMap_singleton,
      Function.update_self, append_assoc]
  · intro j hj
    rcases mem_append.1 hj with hj | hj
    · rw [hblocks j hj]
      exact h.records j hj
    · cases mem_singleton.1 hj
      rw [Function.update_self]
      exact hrecords

structure Entered (p : Pool n) (order : List (Fin n))
    (excused : Fin n → Except CoreError Answer → Prop) : Prop where
  nodup : order.Nodup
  logged : ∀ i, (p.phase i).logged = true → i ∈ order
  past : ∀ i ∈ order, (p.phase i).logged = true ∨ ∃ result, p.phase i = .done result
  answered : ∀ i result, p.phase i = .done result → i ∈ order ∨ excused i result

section Entered

variable {p : Pool n} {order : List (Fin n)} {excused : Fin n → Except CoreError Answer → Prop}
  {i : Fin n} {phase : Phase}

theorem Entered.set (h : Entered p order excused) (db' : Db)
    (hlogged : (p.phase i).logged ∧ (phase.logged ∨ ∃ result, phase = .done result) ∨
      (p.phase i).logged = false ∧ phase.logged = false ∧ (∀ result, p.phase i ≠ .done result) ∧
        ∀ result, phase = .done result → excused i result) :
    Entered (p.set i db' phase) order excused where
  nodup := h.nodup
  logged := by
    intro j hj
    rcases set_cases Phase.logged hj with ⟨rfl, hown⟩ | ⟨-, hj⟩
    · rcases hlogged with ⟨hold, -⟩ | ⟨-, hnew, -⟩
      · exact h.logged j hold
      · cases hnew.symm.trans hown
    · exact h.logged j hj
  past := by
    refine forall_set (fun j phase => j ∈ order → phase.logged = true ∨
      ∃ result, phase = .done result) (fun hi => ?_) fun j _ => h.past j
    rcases hlogged with ⟨-, hnew⟩ | ⟨hold, -, hopen, -⟩
    · exact hnew
    · rcases h.past i hi with hl | ⟨result, hresult⟩
      · cases hold.symm.trans hl
      · exact absurd hresult (hopen result)
  answered := by
    intro j result hj
    rcases phase_set_cases hj with ⟨rfl, hown⟩ | ⟨-, hj⟩
    · rcases hlogged with ⟨hold, -⟩ | ⟨-, -, -, hexcused⟩
      · exact .inl (h.logged j hold)
      · exact .inr (hexcused result hown)
    · exact h.answered j result hj

theorem Entered.append (h : Entered p order excused) (db' : Db) (phase : Phase)
    (hold : (p.phase i).logged = false) (hopen : ∀ result, p.phase i ≠ .done result)
    (hnew : phase.logged) :
    i ∉ order ∧ Entered (p.set i db' phase) (order ++ [i]) excused := by
  have hfresh : i ∉ order := by
    intro hmem
    rcases h.past i hmem with hl | ⟨result, hresult⟩
    · cases hold.symm.trans hl
    · exact hopen result hresult
  refine ⟨hfresh, ?_, fun j hj => ?_, ?_, fun j result hj => ?_⟩
  · exact h.nodup.append (nodup_singleton i) (disjoint_singleton.2 hfresh)
  · rcases set_cases Phase.logged hj with ⟨rfl, -⟩ | ⟨-, hj⟩
    · exact mem_append_right _ mem_cons_self
    · exact mem_append_left _ (h.logged j hj)
  · refine forall_set (fun j phase => j ∈ order ++ [i] → phase.logged = true ∨
      ∃ result, phase = .done result) (fun _ => .inl hnew) fun j hji hj => ?_
    rcases mem_append.1 hj with hj | hj
    · exact h.past j hj
    · exact absurd (mem_singleton.1 hj) hji
  · have hne : phase ≠ .done result := by
      rintro rfl
      cases hnew
    exact (h.answered j result (phase_of_set hj hne).2).imp_left (mem_append_left _)

end Entered

variable (lib) in
structure Inv (db : Db) (requests : Fin n → Request) (p : Pool n) : Prop where
  config : p.db.config = db.config
  storage : p.db.storage = { db.storage with entries := p.db.storage.entries }
  channels : p.db.geofences.channels.defs = db.geofences.channels.defs
  hooks : p.db.geofences.hooks.defs = db.geofences.hooks.defs
  cells : ∀ i c, (p.phase i).pending = true → (requests i).collection? = some c →
    p.db.collections[c]? = db.collections[c]?
  fine : ∀ i, (p.phase i).Fine lib db (requests i)
  counted : ∀ i w, Plans lib db (requests i) (.write w) →
    ∀ last ∈ p.db.storage.entries.getLast?, last.sequence ≤ p.db.nextSequence
  reserved : ∀ i gate w sequences, p.phase i = .reserved gate w sequences →
    Reservation p.db w sequences
  apart : ∀ i j gate gate' w w' sequences sequences', i ≠ j →
    p.phase i = .reserved gate w sequences → p.phase j = .reserved gate' w' sequences' →
    sequences.headD 0 + w.batch.count ≤ sequences'.headD 0 ∨
      sequences'.headD 0 + w'.batch.count ≤ sequences.headD 0
  log : ∃ order blocks, LogOf lib db requests p order blocks ∧
    (∀ i, (p.phase i).logged = true → i ∈ order) ∧
    (∀ i ∈ order, (p.phase i).logged = true ∨ ∃ result, p.phase i = .done result) ∧
    ∀ i result, p.phase i = .done result → i ∈ order ∨ Plans lib db (requests i) (.done result)

namespace Inv

variable {db : Db} {requests : Fin n → Request} {p : Pool n}

theorem start (hs : Independent lib db requests) : Inv lib db requests (.start db) where
  config := rfl
  storage := rfl
  channels := rfl
  hooks := rfl
  cells := fun _ _ _ _ => rfl
  fine := fun _ => trivial
  counted := fun _ _ hplans => hs.counted hplans
  reserved := fun _ _ _ _ h => nomatch h
  apart := fun _ _ _ _ _ _ _ _ _ h => nomatch h
  log := by
    refine ⟨[], fun _ => [], ⟨nodup_nil, (append_nil _).symm, ?_⟩, ?_, ?_, ?_⟩
    · exact fun _ h => absurd h not_mem_nil
    · exact fun _ h => nomatch h
    · exact fun _ h => absurd h not_mem_nil
    · exact fun _ _ h => nomatch h

variable {phase : Phase} (h : Inv lib db requests p)

include h

variable {i : Fin n}

theorem advance {db' : Db}
    (hconfig : db'.config = p.db.config) (hstorage : db'.storage = p.db.storage)
    (hnext : p.db.nextSequence ≤ db'.nextSequence)
    (hchannels : db'.geofences.channels.defs = p.db.geofences.channels.defs)
    (hhooks : db'.geofences.hooks.defs = p.db.geofences.hooks.defs)
    (hothers : ∀ j c, j ≠ i → (requests j).collection? = some c →
      db'.collections[c]? = p.db.collections[c]?)
    (hown : phase.pending → (p.phase i).pending ∧
      ∀ c, (requests i).collection? = some c → db'.collections[c]? = p.db.collections[c]?)
    (hfine : phase.Fine lib db (requests i))
    (hreserved : ∀ gate w sequences, phase = .reserved gate w sequences →
      Reservation db' w sequences ∧ p.db.nextSequence < sequences.headD 0)
    (hrunning : ∀ result, p.phase i ≠ .done result)
    (hlogged : (p.phase i).logged ∧ (phase.logged ∨ ∃ result, phase = .done result) ∨
      (p.phase i).logged = false ∧ phase.logged = false ∧
        ∀ result, phase = .done result → Plans lib db (requests i) (.done result)) :
    Inv lib db requests (p.set i db' phase) where
  config := hconfig.trans h.config
  storage := by
    change db'.storage = { db.storage with entries := db'.storage.entries }
    rw [hstorage]
    exact h.storage
  channels := hchannels.trans h.channels
  hooks := hhooks.trans h.hooks
  cells := by
    intro j c hpending hc
    change db'.collections[c]? = _
    rcases set_cases Phase.pending hpending with ⟨rfl, hnew⟩ | ⟨hj, hpending⟩
    · obtain ⟨hold, hsame⟩ := hown hnew
      rw [hsame c hc, h.cells j c hold hc]
    · rw [hothers j c hj hc, h.cells j c hpending hc]
  fine := forall_set (fun j => Phase.Fine lib db (requests j)) hfine fun j _ => h.fine j
  counted := by
    intro j w hplans last hlast
    rw [db_set, hstorage] at hlast
    exact (h.counted j w hplans last hlast).trans hnext
  reserved := by
    intro j gate w sequences hj
    rcases phase_set_cases hj with ⟨-, hj⟩ | ⟨-, hj⟩
    · exact (hreserved gate w sequences hj).1
    · exact (h.reserved j gate w sequences hj).mono hstorage hnext
  apart := by
    -- a new reservation starts behind the counter, so behind all earlier ones
    have hnew : ∀ j gate gate' w w' sequences sequences', j ≠ i →
        phase = .reserved gate w sequences → p.phase j = .reserved gate' w' sequences' →
        sequences'.headD 0 + w'.batch.count ≤ sequences.headD 0 := by
      intro j gate gate' w w' sequences sequences' _ hi hj
      exact (h.reserved j gate' w' sequences' hj).passed.trans (hreserved gate w sequences hi).2
    intro j k gate gate' w w' sequences sequences' hjk hj hk
    rcases phase_set_cases hj with ⟨rfl, hself⟩ | ⟨hji, hj⟩
    · rw [p.phase_set_of_ne hjk.symm] at hk
      exact .inr (hnew k gate gate' w w' sequences sequences' hjk.symm hself hk)
    · rcases phase_set_cases hk with ⟨-, hk⟩ | ⟨-, hk⟩
      · exact .inl (hnew j gate' gate w' w sequences' sequences hji hk hj)
      · exact h.apart j k gate gate' w w' sequences sequences' hjk hj hk
  log := by
    obtain ⟨order, blocks, hlog, hin, hout, hdone⟩ := h.log
    have hserved := (Entered.mk hlog.nodup hin hout hdone).set db' <|
      hlogged.imp_right fun ⟨hold, hnew, hplans⟩ => ⟨hold, hnew, hrunning, hplans⟩
    refine ⟨order, blocks, ⟨hlog.nodup, ?_, hlog.records⟩, hserved.logged, hserved.past,
      hserved.answered⟩
    change db'.storage.entries = _
    rw [hstorage]
    exact hlog.log

variable {w : Write} {gate : Gate}

theorem planned (hi : p.phase i = phase)
    (hw : phase.Fine lib db (requests i) → Plans lib db (requests i) (.write w)) :
    Plans lib db (requests i) (.write w) := hw (hi ▸ h.fine i)

theorem reserve (hs : Independent lib db requests) (hi : p.phase i = .ready gate w) :
    Inv lib db requests (p.set i { p.db with nextSequence := p.db.nextSequence + w.batch.count }
      (.reserved gate w (range' (p.db.nextSequence + 1) w.batch.count))) := by
  have hplans : Plans lib db (requests i) (.write w) := h.planned hi id
  obtain ⟨c, cell, hc, hcell⟩ := hs.found i
  obtain ⟨-, -, -, hintended⟩ := hs.write hplans hc
  obtain ⟨aim, haim⟩ := hintended db.view rfl
  have hpos := Batch.count_pos haim.intends.commands_ne_nil
  obtain ⟨hhead, hnext⟩ := Reservation.next hpos (h.counted i w hplans)
  refine h.advance rfl rfl (Nat.le_add_right _ _) rfl rfl (fun _ _ _ _ => rfl)
    (fun _ => ⟨by rw [hi]; rfl, fun _ _ => rfl⟩) hplans ?_ (fun r hr => by rw [hi] at hr; cases hr)
    (.inr ⟨by rw [hi]; rfl, rfl, fun _ => nofun⟩)
  rintro gate' w' sequences hphase
  cases hphase
  refine ⟨hnext, ?_⟩
  rw [hhead]
  exact Nat.lt_succ_self _

theorem append (hjson : lib.codec.Total)
    (hs : Independent lib db requests) {ctx : Ctx} {sequences : List Nat}
    (hi : p.phase i = .reserved gate w sequences) (horder : InOrder (i, ctx) p) :
    ∃ db', p.db.appendNumbered lib ctx.nowNs (w.batch.numbered lib sequences) sequences =
        (.ok sequences, db') ∧ Inv lib db requests (p.set i db' (.appended gate w)) := by
  have hplans : Plans lib db (requests i) (.write w) := h.planned hi id
  have hreserved := h.reserved i gate w sequences hi
  have hfaults : p.db.storage.faults = [] := by rw [h.storage]; exact hs.faults
  have hopen : p.db.storage.closed = false := by rw [h.storage]; exact hs.opened
  obtain ⟨entries, hencode, happend, hlast⟩ := hreserved.append hjson hfaults hopen ctx.nowNs
  refine ⟨_, happend, ?_⟩
  refine { h with storage := ?_, cells := ?_, fine := ?_, counted := ?_, reserved := ?_
                  apart := ?_, log := ?_ }
  · rw [db_set]
    rw [h.storage]
  · intro j c hpending hc
    rcases set_cases Phase.pending hpending with ⟨rfl, -⟩ | ⟨-, hpending⟩
    · exact h.cells j c (by rw [hi]; rfl) hc
    · exact h.cells j c hpending hc
  · exact forall_set (fun j => Phase.Fine lib db (requests j)) hplans fun j _ => h.fine j
  · intro j w' _ last hl
    exact Nat.le_of_lt_succ ((hlast last hl).trans_le hreserved.passed)
  · intro j gate' w' sequences' hj
    obtain ⟨hji, hj⟩ := phase_of_set hj nofun
    obtain ⟨hrange', hpos', hpassed', -⟩ := h.reserved j gate' w' sequences' hj
    refine ⟨hrange', hpos', hpassed', fun last hl => (hlast last hl).trans_le ?_⟩
    have hless := horder gate w sequences hi j gate' w' sequences' hji hj
    rcases h.apart i j gate gate' w w' sequences sequences' hji.symm hi hj with hle | hle
    · exact hle
    · omega
  · intro j k gate₁ gate₂ w₁ w₂ s₁ s₂ hjk hj hk
    exact h.apart j k gate₁ gate₂ w₁ w₂ s₁ s₂ hjk (phase_of_set hj nofun).2
      (phase_of_set hk nofun).2
  · obtain ⟨order, blocks, hlog, hin, hout, hdone⟩ := h.log
    obtain ⟨hfresh, hserved⟩ := (Entered.mk hlog.nodup hin hout hdone).append (i := i) _
      (.appended gate w) (by rw [hi]; rfl) (by rw [hi]; exact fun _ => nofun) rfl
    exact ⟨order ++ [i], Function.update blocks i entries,
      hlog.snoc hfresh ⟨w, sequences, ctx.nowNs, hplans, hencode⟩ rfl, hserved.logged,
      hserved.past, hserved.answered⟩

theorem alike (hpending : (p.phase i).pending)
    {c : String} (hc : (requests i).collection? = some c) : Alike c db p.db where
  cell := h.cells i c hpending hc
  config := h.config
  stores := by rw [h.storage]
  channels := h.channels
  hooks := h.hooks

theorem alike_showing (c : String) : Alike c db (showing p.db c db.collections[c]?) where
  cell := by rw [showing, Std.ExtTreeMap.getElem?_alter_self]
  config := h.config
  stores := by
    change p.db.storage.storesCommandLog = _
    rw [h.storage]
  channels := h.channels
  hooks := h.hooks

theorem move {current : Phase}
    (hi : p.phase i = current) (hcurrent : current.early) (hphase : phase.early)
    (hfine : phase.Fine lib db (requests i)) : Inv lib db requests (p.set i p.db phase) := by
  have hold : (p.phase i).pending = true := by rw [hi]; cases current <;> first | rfl | cases hcurrent
  have hlogged : (p.phase i).logged = false := by
    rw [hi]; cases current <;> first | rfl | cases hcurrent
  have hlogged' : phase.logged = false := by cases phase <;> first | rfl | cases hphase
  refine h.advance rfl rfl le_rfl rfl rfl (fun _ _ _ _ => rfl) (fun _ => ⟨hold, fun _ _ => rfl⟩)
    hfine (fun _ _ _ heq => ?_) (fun r hr => ?_) (.inr ⟨hlogged, hlogged', fun r hr => ?_⟩)
  · rw [heq] at hphase
    cases hphase
  · rw [hr] at hold
    cases hold
  · rw [hr] at hphase
    cases hphase

theorem answered (hs : Independent lib db requests)
    {current : Phase} {result : Except CoreError Answer} (hi : p.phase i = current)
    (hcurrent : current.early) (hplans : Plans lib db (requests i) (.done result)) :
    Inv lib db requests (p.set i p.db (.done result)) := by
  refine h.advance rfl rfl le_rfl rfl rfl (fun _ _ _ _ => rfl) nofun
    (hs.passes hplans) (fun _ _ _ => nofun) (fun r hr => ?_) (.inr ⟨?_, rfl, ?_⟩)
  · cases hi.symm.trans hr
    cases hcurrent
  · rw [hi]
    cases current <;> first | rfl | cases hcurrent
  · intro r hr
    cases hr
    exact hplans

theorem change (hs : Independent lib db requests) (hi : p.phase i = .appended gate w) :
    ∃ answer, (w.effect.apply lib p.db.toStore).1 = .ok answer ∧
      retries gate w.effect answer = false ∧
      Inv lib db requests
        (p.set i { p.db with toStore := (w.effect.apply lib p.db.toStore).2 }
          (.changed gate w answer)) := by
  have hplans : Plans lib db (requests i) (.write w) := h.planned hi id
  obtain ⟨c, cell, hc, hcell⟩ := hs.found i
  obtain ⟨⟨m, hm⟩, hidx, -, hintended⟩ := hs.write hplans hc
  have hsame : p.db.view.collections[c]? = db.view.collections[c]? := by
    rw [Store.collections_view, Store.collections_view, h.cells i c (by rw [hi]; rfl) hc]
  obtain ⟨aim, haim⟩ := hintended p.db.view hsame
  obtain ⟨⟨answer, hanswer, hfound⟩, -⟩ := haim.intends.view hidx 0
  have htrue := hfound c m hm
  obtain ⟨hgeofences, hothers⟩ := Effect.mutate_frame lib p.db.toStore c m
  rw [← hm] at hgeofences hothers
  refine ⟨answer, hanswer, ?_, ?_⟩
  · rw [htrue]
    exact retries_found gate w.effect
  · refine h.advance rfl rfl le_rfl (by rw [hgeofences]) (by rw [hgeofences]) ?_
      nofun (haim.replies answer hfound)
      (fun _ _ _ => nofun) (fun r hr => by rw [hi] at hr; cases hr)
      (.inl ⟨by rw [hi]; rfl, .inl rfl⟩)
    intro j c' hj hc'
    refine hothers c' ?_
    rintro rfl
    exact hs.apart j i hj (hc'.trans hc.symm)

theorem step (hjson : lib.codec.Total) (hs : Independent lib db requests) {action : Fin n × Ctx}
    (horder : InOrder action p) {p' : Pool n} (hstep : p.step lib requests action = some p') :
    Inv lib db requests p' ∧ (p'.phase action.1).left < (p.phase action.1).left := by
  obtain ⟨db', phase, hmoves, rfl⟩ := step_cases hstep
  obtain ⟨i, ctx⟩ := action
  rw [phase_set_self]
  generalize hi : p.phase i = current at hmoves
  have hfine := h.fine i
  have hpending : current.early = true → (p.phase i).pending = true := by
    intro he
    rw [hi]
    cases current <;> first | rfl | cases he
  rw [hi] at hfine
  cases hmoves with
  | skip hnone =>
    obtain ⟨c, -, hc, -⟩ := hs.found i
    cases hnone.symm.trans hc
  | enter hc hgate => exact ⟨h.move hi rfl rfl trivial, by decide⟩
  | @read c hc hlock =>
    refine ⟨h.move hi rfl rfl fun c' hc' => ?_, Nat.lt_succ_self _⟩
    cases hc.symm.trans hc'
    exact h.cells i c (hpending rfl) hc
  | @plan c cell w hc hplan =>
    rw [hfine c hc] at hplan
    have halike := h.alike_showing c
    obtain ⟨cell', hcell', hversion⟩ :=
      (localPlan_local hplan hc (halike.stores.trans hs.stores)).version
    refine ⟨h.move hi rfl rfl ⟨⟨c, _, ctx, hc, halike, .inl hplan⟩, fun c' hc' => ?_⟩,
      Nat.lt_succ_self _⟩
    cases hc.symm.trans hc'
    rw [hversion, ← halike.cell, hcell']
    rfl
  | @answer c cell result hc hplan =>
    rw [hfine c hc] at hplan
    exact ⟨h.answered hs hi rfl ⟨c, _, ctx, hc, h.alike_showing c, .inl hplan⟩,
      Nat.zero_lt_succ _⟩
  | yield hc hplan => exact ⟨h.move hi rfl rfl trivial, Nat.lt_succ_self _⟩
  | lock hc hlock hversion => exact ⟨h.move hi rfl rfl hfine.1, Nat.lt_succ_self _⟩
  | retry hc hversion =>
    -- nobody else writes to the collection
    refine absurd ?_ hversion
    rw [h.cells i _ (hpending rfl) hc, hfine.2 _ hc]
  | planAlone hshared hexclusive hplan =>
    obtain ⟨c, -, hc, -⟩ := hs.found i
    have hready : (Phase.ready .exclusive _).Fine lib db (requests i) :=
      ⟨c, _, ctx, hc, h.alike (hpending rfl) hc, .inr hplan⟩
    exact ⟨h.move hi rfl rfl hready, Nat.lt_succ_self _⟩
  | answerAlone hshared hexclusive hplan =>
    obtain ⟨c, -, hc, -⟩ := hs.found i
    exact ⟨h.answered hs hi rfl ⟨c, _, ctx, hc, h.alike (hpending rfl) hc, .inr hplan⟩,
      Nat.zero_lt_succ _⟩
  | reserve => exact ⟨h.reserve hs hi, Nat.lt_succ_self _⟩
  | append happend =>
    obtain ⟨db'', hok, hinv⟩ := h.append hjson hs hi horder
    cases hok.symm.trans happend
    exact ⟨hinv, Nat.lt_succ_self _⟩
  | refuse happend =>
    obtain ⟨db'', hok, -⟩ := h.append hjson hs hi horder
    cases hok.symm.trans happend
  | create hmissing =>
    -- the collection was there from the start
    obtain ⟨c, cell, hc, hcell⟩ := hs.found i
    obtain ⟨⟨m, hm⟩, -⟩ := hs.write hfine hc
    have hthere := (h.cells i c (by rw [hi]; rfl) hc).trans hcell
    rw [hm, missing, Std.ExtTreeMap.contains_eq_isSome_getElem?, hthere] at hmissing
    cases hmissing
  | fail hmissing happly =>
    obtain ⟨answer, hok, -⟩ := h.change hs hi
    rw [happly] at hok
    cases hok
  | change hmissing happly =>
    obtain ⟨answer, hok, hretries, hinv⟩ := h.change hs hi
    rw [happly] at hok hinv
    cases hok
    rw [hretries]
    exact ⟨hinv, Nat.lt_succ_self _⟩
  | @finish gate w answer =>
    obtain ⟨b, hb⟩ := hfine
    have hview := p.db.view_applyPlanned (fences w answer)
    refine ⟨h.advance rfl rfl le_rfl (congrArg View.channels hview) (congrArg View.hooks hview)
      (fun _ _ _ _ => rfl) nofun ?_ (fun _ _ _ => nofun)
      (fun r hr => by cases hi.symm.trans hr) (.inl ⟨by rw [hi]; rfl, .inr ⟨_, rfl⟩⟩),
      Nat.zero_lt_succ _⟩
    rw [hb]
    rfl

end Inv

/-! ### No call is held up for ever -/

def Pool.left (p : Pool n) : Nat := ∑ i, (p.phase i).left

theorem Pool.left_start (db : Db) : (start db : Pool n).left = 8 * n := by
  simp [left, start, Phase.left, mul_comm]

theorem Pool.left_lt {p' : Pool n} (hi : (p'.phase i).left < (p.phase i).left)
    (hothers : ∀ j, j ≠ i → p'.phase j = p.phase j) : p'.left < p.left := by
  refine Finset.sum_lt_sum (fun j _ => ?_) ⟨i, Finset.mem_univ i, hi⟩
  by_cases hj : j = i
  · rw [hj]
    exact hi.le
  · rw [hothers j hj]

theorem Independent.next_isSome (hs : Independent lib db requests) (ctx : Ctx)
    (hrunning : ∀ result, p.phase i ≠ .done result)
    (hgate : (p.phase i).gate?.isSome ∨ ∀ j, (p.phase j).gate? = none) :
    ∃ db' phase, p.next lib requests i ctx = some (db', phase) := by
  obtain ⟨c, -, hc, -⟩ := hs.found i
  have hfree : ∀ gate, (∀ j, (p.phase j).gate? = none) → p.gateHeld gate = false := by
    intro gate hnone
    refine gateHeld_eq_false.2 fun j hj => ?_
    rw [hnone j] at hj
    cases hj
  have hunlocked : (p.phase i).locks = false → p.locked requests c = false := by
    -- only the call itself could hold the lock of its collection
    intro hlocks
    refine locked_eq_false.2 fun j hj hcj => ?_
    by_cases hji : j = i
    · rw [hji, hlocks] at hj
      cases hj
    · exact hs.apart j i hji (hcj.trans hc.symm)
  rw [Pool.next]
  cases hphase : p.phase i with
  | start =>
    rw [hphase] at hgate
    rcases hgate with hgate | hnone
    · cases hgate
    · simp only [hc, hfree _ hnone]
      exact ⟨_, _, rfl⟩
  | reading =>
    rw [hphase] at hunlocked
    simp only [hc, hunlocked rfl]
    exact ⟨_, _, rfl⟩
  | read cell =>
    simp only [hc]
    split <;> exact ⟨_, _, rfl⟩
  | planned w =>
    rw [hphase] at hunlocked
    simp only [hc, hunlocked rfl, Bool.false_eq_true, if_false]
    split <;> exact ⟨_, _, rfl⟩
  | waiting =>
    rw [hphase] at hgate
    rcases hgate with hgate | hnone
    · cases hgate
    · simp only [hfree _ hnone, Bool.or_self, Bool.false_eq_true, if_false]
      split <;> exact ⟨_, _, rfl⟩
  | ready gate w => exact ⟨_, _, rfl⟩
  | reserved gate w sequences =>
    dsimp only
    split <;> exact ⟨_, _, rfl⟩
  | appended gate w =>
    dsimp only
    split
    · exact ⟨_, _, rfl⟩
    · split <;> exact ⟨_, _, rfl⟩
  | changed gate w answer => exact ⟨_, _, rfl⟩
  | done result => exact absurd hphase (hrunning result)

def Phase.reservation? : Phase → Option (List Nat)
  | .reserved _ _ sequences => some sequences
  | _ => none

theorem Inv.progress (h : Inv lib db requests p) (hs : Independent lib db requests) :
    (∀ i, ∃ result, p.phase i = .done result) ∨
      ∃ i, ∀ ctx, InOrder (i, ctx) p ∧ ∃ p', p.step lib requests (i, ctx) = some p' := by
  have hstep : ∀ i, (∀ ctx, InOrder (i, ctx) p) → (∀ result, p.phase i ≠ .done result) →
      ((p.phase i).gate?.isSome = true ∨ ∀ j, (p.phase j).gate? = none) →
      ∃ i, ∀ ctx, InOrder (i, ctx) p ∧ ∃ p', p.step lib requests (i, ctx) = some p' := by
    intro i horder hrunning hgate
    refine ⟨i, fun ctx => ⟨horder ctx, ?_⟩⟩
    obtain ⟨db', phase, hnext⟩ := hs.next_isSome ctx hrunning hgate
    exact ⟨p.set i db' phase, by rw [Pool.step, hnext]; rfl⟩
  by_cases hreserved : ∃ i, (p.phase i).reservation?.isSome = true
  · -- the call with the smallest numbers can append
    obtain ⟨i₀, hi₀⟩ := hreserved
    obtain ⟨i, hi, hmin⟩ := Finset.exists_min_image
      (Finset.univ.filter fun i => (p.phase i).reservation?.isSome = true)
      (fun i => ((p.phase i).reservation?.getD []).headD 0)
      ⟨i₀, Finset.mem_filter.2 ⟨Finset.mem_univ _, hi₀⟩⟩
    have hi := (Finset.mem_filter.1 hi).2
    refine .inr (hstep i (fun ctx gate w sequences hphase j gate' w' sequences' hj hphase' => ?_)
      (fun result hdone => by rw [hdone] at hi; cases hi) (.inl ?_))
    · have hle := hmin j (Finset.mem_filter.2 ⟨Finset.mem_univ _, by rw [hphase']; rfl⟩)
      rw [hphase, hphase'] at hle
      have hpos := (h.reserved i gate w sequences hphase).pos
      have hpos' := (h.reserved j gate' w' sequences' hphase').pos
      have hapart := h.apart i j gate gate' w w' sequences sequences' hj.symm hphase hphase'
      simp only [Phase.reservation?, Option.getD_some] at hle
      omega
    · cases hphase : p.phase i with
      | reserved gate w sequences => rfl
      | _ =>
        rw [hphase] at hi
        cases hi
  · -- nobody holds numbers, so the order does not matter
    have horder : ∀ i ctx, InOrder (i, ctx) p := by
      intro i ctx gate w sequences hphase
      exact absurd ⟨i, by rw [hphase]; rfl⟩ hreserved
    by_cases hdone : ∀ i, ∃ result, p.phase i = .done result
    · exact .inl hdone
    · right
      by_cases hgate : ∃ i, (p.phase i).gate?.isSome = true
      · obtain ⟨i, hi⟩ := hgate
        exact hstep i (horder i) (fun result hr => by rw [hr] at hi; cases hi) (.inl hi)
      · obtain ⟨i, hi⟩ := not_forall.1 hdone
        refine hstep i (horder i) (fun result hr => hi ⟨result, hr⟩) (.inr fun j => ?_)
        exact Option.not_isSome_iff_eq_none.1 fun hj => hgate ⟨j, hj⟩

/-- As long as every call appends before those with larger numbers, each of them succeeds
after a bounded number of steps, and the log gets the records of each of them once. -/
theorem writers_in_order_succeed
    (hjson : ∀ record, ∃ payload, lib.codec.toJson record = .ok payload) {db : Db}
    {requests : Fin n → Request} (hs : Independent lib db requests)
    {schedule : List (Fin n × Ctx)} {p : Pool n}
    (hmeet : StepsMeet (Pool.step lib requests) InOrder schedule (.start db))
    (hrun : runSteps (Pool.step lib requests) schedule (.start db) = some p) :
    schedule.length ≤ 8 * n ∧
      ((∀ i, ∃ result, p.phase i = .done result) ∨
        ∃ i, ∀ ctx, InOrder (i, ctx) p ∧ ∃ p', p.step lib requests (i, ctx) = some p') ∧
      (∀ i result, p.phase i = .done result → result.isOk = true) ∧
      ∃ (order : List (Fin n)) (blocks : Fin n → List StorageEntry), order.Nodup ∧
        p.db.storage.entries = db.storage.entries ++ order.flatMap blocks ∧
        (∀ i ∈ order, Records lib db (requests i) (blocks i)) ∧
        ∀ i result, p.phase i = .done result →
          i ∈ order ∨ Plans lib db (requests i) (.done result) := by
  have hstep : ∀ action (p p' : Pool n), Inv lib db requests p → InOrder action p →
      p.step lib requests action = some p' → Inv lib db requests p' ∧ p'.left < p.left := by
    intro action p p' h horder hstep
    obtain ⟨hinv, hleft⟩ := h.step hjson hs horder hstep
    exact ⟨hinv, Pool.left_lt hleft fun j hj => Pool.phase_step_of_ne hstep hj⟩
  have hstart : Inv lib db requests (.start db) := Inv.start hs
  have hinv := runSteps_invariant (fun a s s' h ho hst => (hstep a s s' h ho hst).1) hstart hmeet hrun
  have hlength := length_le_of_runSteps hstep hstart hmeet hrun
  rw [Pool.left_start] at hlength
  obtain ⟨order, blocks, hlog, -, -, hdone⟩ := hinv.log
  refine ⟨by omega, hinv.progress hs, fun i result hi => ?_, order, blocks, hlog.nodup, hlog.log,
    hlog.records, hdone⟩
  have hfine := hinv.fine i
  rwa [hi] at hfine

open Sample in
def twoSets : Fin 2 → Request
  | 0 => setIdle "fleet" "truck"
  | 1 => setIdle "yard" "crane"

open Sample in
theorem twoSets_independent : Independent blankLib fleetAndYard twoSets where
  faults := rfl
  opened := rfl
  stores := rfl
  basic := fun
    | 0 => rfl
    | 1 => rfl
  found := fun
    | 0 => ⟨"fleet", .new "fleet", rfl, rfl⟩
    | 1 => ⟨"yard", .new "yard", rfl, rfl⟩
  apart := by
    intro i j hij
    match i, j with
    | 0, 0 => exact absurd rfl hij
    | 0, 1 => decide
    | 1, 0 => decide
    | 1, 1 => exact absurd rfl hij
  valid := fun
    | 0 => ⟨sampleCtx, rfl⟩
    | 1 => ⟨sampleCtx, rfl⟩

open Sample in
/-- Both calls plan before the first one appends. -/
theorem twoSets_in_order_succeed :
    let schedule := replicate 4 ((0 : Fin 2), sampleCtx) ++ replicate 4 (1, sampleCtx) ++
      replicate 2 (0, sampleCtx) ++ replicate 4 (1, sampleCtx) ++
      replicate 2 (0, sampleCtx)
    ∃ p, runSteps (Pool.step blankLib twoSets) schedule (.start fleetAndYard) = some p ∧
      (∀ i result, p.phase i = .done result → result.isOk = true) ∧ p.left = 0 := by
  intro schedule
  have hmeet : StepsMeet (Pool.step blankLib twoSets) InOrder schedule (.start fleetAndYard) := by
    refine stepsMeet_of_checkSteps
      (fun action p => (p.phase (1 - action.1)).reservation?.isNone) ?_ rfl
    intro action p hother gate w sequences hphase j gate' w' sequences' hj hphase'
    have hj' : j = 1 - action.1 := by omega
    rw [← hj', hphase'] at hother
    cases hother
  have h := fun p hp => (@writers_in_order_succeed _ _ (fun _ => ⟨[], rfl⟩) _ _ twoSets_independent
    schedule p hmeet hp).2.2.1
  exact ⟨_, rfl, h _ rfl, rfl⟩

open Sample in
/-- Both calls reserve their number, and the second one appends first. -/
theorem overtaken_set_fails :
    (∀ i, (Db.perform blankLib fleetAndYard sampleCtx (twoSets i)).1.isOk = true) ∧
      ∃ p, runSteps (Pool.step blankLib twoSets)
          (replicate 5 ((0 : Fin 2), sampleCtx) ++ replicate 8 (1, sampleCtx) ++
            [(0, sampleCtx)]) (.start fleetAndYard) = some p ∧
        p.phase 0 = .done (.error (.storage (.sequenceRegression 3 1))) ∧
        p.phase 1 = .done (.ok (.bool true)) := by
  refine ⟨fun i => ?_, _, rfl, rfl, rfl⟩
  match i with
  | 0 => rfl
  | 1 => rfl

end LatLng.Concurrent
