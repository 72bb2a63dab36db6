import LatLng.Concurrent.OneCollection
import LatLng.Core.Faithful

/-! The log and the state of a pool. A call logs its commands before it carries them out, and
commands on different collections may change places; once the calls that are in between have
caught up, the state is what the log shows. -/

namespace LatLng.Concurrent

open LatLng.Core Geo Storage LatLng.Lib Std List Pool Request

variable {lib : Lib} {n : Nat}

/-! ### What the calls know -/

def Behind (db : Db) (request : Request) (t : VersionedCollection) : Prop :=
  ∃ c cell, request.collection? = some c ∧ db.collections[c]? = some cell ∧
    (t = cell ∨ t.version < cell.version)

variable (lib) in
/-- The write does what the call means in the current state. Under the shared gate it is a change
to an existing collection. -/
structure Due (db : Db) (request : Request) (gate : Gate) (w : Write) : Prop where
  intended : ∃ aim, w.Intended lib db.view aim
  shared : gate = .shared → ∃ c m cell, request.collection? = some c ∧ w.effect = .mutate c m ∧
    db.collections[c]? = some cell

def Meant (db : Db) (request : Request) (w : Write) : Prop :=
  ∃ ctx, w.batch.commands = request.commands ctx db.view

variable (lib) in
def Phase.Aware (db : Db) (request : Request) : Phase → Prop
  | .read (some t) => Behind db request t
  | .planned w => ∃ c t db₀ ctx, request.collection? = some c ∧ Behind db request t ∧
    db₀.collections[c]? = some t ∧ db₀.storage.storesCommandLog = true ∧
    request.localPlan lib db₀ ctx = some (.write w)
  | .ready gate w => Due lib db request gate w ∧ Meant db request w
  | .reserved gate w sequences => Due lib db request gate w ∧ Meant db request w ∧
    ∃ start, 0 < start ∧ sequences = range' start w.batch.count
  | .appended gate w => Due lib db request gate w ∧ w.effect.indexable lib = true
  | _ => True

theorem Phase.aware_of_gate {db : Db} {request : Request} {phase : Phase}
    (h : phase.gate? = none) : phase.Aware lib db request := by
  cases phase with
  | start | waiting | done result => trivial
  | _ => cases h

section Aware

variable {db db' : Db} {request : Request} {w : Write} {phase : Phase}
  (h : phase.Aware lib db request)

include h

/-- What a call knows outlasts a change that leaves its collection, as it has read it, behind or
where it is, and its write due. -/
theorem Phase.Aware.imp (hbehind : ∀ {t}, Behind db request t → Behind db' request t)
    (hdue : ∀ {gate w}, phase.gate? = some gate → (gate = .shared → phase.locks = true) →
      Due lib db request gate w →
        Due lib db' request gate w ∧ (Meant db request w → Meant db' request w)) :
    phase.Aware lib db' request := by
  cases phase with
  | read cell =>
    cases cell with
    | none => trivial
    | some t => exact hbehind h
  | planned w =>
    obtain ⟨c, t, db₀, ctx, hc, ht, hrest⟩ := h
    exact ⟨c, t, db₀, ctx, hc, hbehind ht, hrest⟩
  | ready gate w =>
    obtain ⟨hw, hm⟩ := hdue rfl (fun hg => by rw [hg]; rfl) h.1
    exact ⟨hw, hm h.2⟩
  | reserved gate w sequences =>
    obtain ⟨hw, hm⟩ := hdue rfl (fun hg => by rw [hg]; rfl) h.1
    exact ⟨hw, hm h.2.1, h.2.2⟩
  | appended gate w => exact ⟨(hdue rfl (fun hg => by rw [hg]; rfl) h.1).1, h.2⟩
  | _ => trivial

omit h in
theorem Due.congr {gate : Gate} (h : Due lib db request gate w)
    (hcollections : db'.collections = db.collections) (hview : db'.view = db.view) :
    Due lib db' request gate w ∧ (Meant db request w → Meant db' request w) := by
  refine ⟨⟨by rw [hview]; exact h.intended, fun hgate => ?_⟩, fun hmeant => ?_⟩
  · rw [hcollections]
    exact h.shared hgate
  · rw [Meant, hview]
    exact hmeant

theorem Phase.Aware.congr
    (hcollections : db'.collections = db.collections) (hview : db'.view = db.view) :
    phase.Aware lib db' request := by
  refine h.imp (fun ht => ?_) fun _ _ hw => hw.congr hcollections hview
  rw [Behind, hcollections]
  exact ht

theorem Phase.Aware.frame (hgate : phase.gate? ≠ some .exclusive)
    (hsame : ∀ c, request.collection? = some c → db'.collections[c]? = db.collections[c]?) :
    phase.Aware lib db' request := by
  refine h.imp (fun {t} ht => ?_) fun {gate w} hg _ hw => ?_
  · obtain ⟨c, cell, hc, hcell, ht⟩ := ht
    exact ⟨c, cell, hc, (hsame c hc).trans hcell, ht⟩
  · cases gate with
    | exclusive => exact absurd hg hgate
    | shared =>
      obtain ⟨aim, haim⟩ := hw.intended
      obtain ⟨c, m, cell, hc, hm, hcell⟩ := hw.shared rfl
      have hview : db.view.collections[c]? = db'.view.collections[c]? := by
        rw [Store.collections_view, Store.collections_view, hsame c hc]
      refine ⟨⟨⟨aim, haim.congr hm hview⟩, fun _ => ⟨c, m, cell, hc, hm, ?_⟩⟩, ?_⟩
      · exact (hsame c hc).trans hcell
      · rintro ⟨ctx, hctx⟩
        exact ⟨ctx, by rw [hctx, commands_congr hc hview]⟩

theorem Phase.Aware.bump
    (hgate : phase.gate? ≠ some .exclusive) (hlocks : phase.locks = false) {c : String}
    {cell cell' : VersionedCollection} (hc : request.collection? = some c)
    (hcell : db.collections[c]? = some cell) (hcell' : db'.collections[c]? = some cell')
    (hlt : cell.version < cell'.version) : phase.Aware lib db' request := by
  refine h.imp (fun {t} ht => ?_) fun {gate w} hg hl _ => ?_
  · obtain ⟨c', cell₀, hc', hcell₀, ht⟩ := ht
    cases hc.symm.trans hc'
    cases hcell.symm.trans hcell₀
    refine ⟨c, cell', hc, hcell', .inr ?_⟩
    rcases ht with rfl | ht
    · exact hlt
    · exact ht.trans hlt
  · cases gate with
    | shared => cases hlocks.symm.trans (hl rfl)
    | exclusive => exact absurd hg hgate

end Aware

/-! ### Debts -/

variable (lib) in
def commanded (w : Write) (v : View) : View := w.batch.commands.foldl (View.apply lib 0) v

variable (lib) in
def Phase.debt : Phase → View → View
  | .appended _ w => commanded lib w
  | _ => id

theorem Phase.debt_of_not_logged {phase : Phase} (h : phase.logged = false) :
    phase.debt lib = id := by
  cases phase with
  | appended gate w => cases h
  | _ => rfl

variable (lib) in
def Pool.settled (p : Pool n) : View :=
  settle (fun i => (p.phase i).debt lib) (finRange n) p.db.view

variable (lib) in
structure Orderly (requests : Fin n → Request) (p : Pool n) : Prop where
  stores : p.db.storage.storesCommandLog = true
  alone : ∀ i j, (p.phase i).gate? = some .exclusive → j ≠ i → (p.phase j).gate? = none
  apart : ∀ i j, (p.phase i).locks = true → (p.phase j).locks = true →
    (requests i).collection? = (requests j).collection? → i = j
  aware : ∀ i, (p.phase i).Aware lib p.db (requests i)

structure Phase.Owns (phase : Phase) (gate : Gate) : Prop where
  held : phase.gate? = some gate
  locks : gate = .shared → phase.locks = true

theorem Phase.owns_reserved (gate : Gate) (w : Write) (sequences : List Nat) :
    (Phase.reserved gate w sequences).Owns gate :=
  ⟨rfl, fun h => by rw [h]; rfl⟩

theorem Phase.owns_appended (gate : Gate) (w : Write) : (Phase.appended gate w).Owns gate :=
  ⟨rfl, fun h => by rw [h]; rfl⟩

namespace Orderly

variable {requests : Fin n → Request} {p : Pool n}

theorem start {db : Db} (hstores : db.storage.storesCommandLog) :
    Orderly lib requests (start db) where
  stores := hstores
  alone := nofun
  apart := nofun
  aware := fun _ => trivial

section Holds

variable (h : Orderly lib requests p) {i j : Fin n} (hij : i ≠ j) {gate gate' : Gate}
  (hi : (p.phase i).Owns gate) (hj : (p.phase j).Owns gate')
include h hij hi hj

theorem both_shared : gate = .shared ∧ gate' = .shared := by
  constructor
  · cases gate with
    | shared => rfl
    | exclusive => cases hj.held.symm.trans (h.alone i j hi.held hij.symm)
  · cases gate' with
    | shared => rfl
    | exclusive => cases hi.held.symm.trans (h.alone j i hj.held hij)

theorem collection_ne : (requests i).collection? ≠ (requests j).collection? := by
  obtain ⟨hshared, hshared'⟩ := h.both_shared hij hi hj
  exact fun hc => hij (h.apart i j (hi.locks hshared) (hj.locks hshared') hc)

theorem commanded_comm {w w' : Write} (hw : Due lib p.db (requests i) gate w)
    (hw' : Due lib p.db (requests j) gate' w') (v : View) :
    commanded lib w' (commanded lib w v) = commanded lib w (commanded lib w' v) := by
  obtain ⟨rfl, rfl⟩ := h.both_shared hij hi hj
  obtain ⟨c, m, -, hc, hm, -⟩ := hw.shared rfl
  obtain ⟨c', m', -, hc', hm', -⟩ := hw'.shared rfl
  have hne : c' ≠ c := by
    rintro rfl
    exact h.collection_ne hij hi hj (hc.trans hc'.symm)
  obtain ⟨aim, haim⟩ := hw.intended
  obtain ⟨aim', haim'⟩ := hw'.intended
  have hacts := haim.intends
  have hacts' := haim'.intends
  rw [hm] at hacts
  rw [hm'] at hacts'
  exact (hacts'.actsAt 0).comm (hacts.actsAt 0) hne v

end Holds

variable {i j : Fin n} {gate : Gate} {w : Write} (h : Orderly lib requests p)

include h

theorem debt_comm (hji : j ≠ i) (hi : (p.phase i).Owns gate)
    (hw : Due lib p.db (requests i) gate w) (v : View) :
    (p.phase j).debt lib (commanded lib w v) = commanded lib w ((p.phase j).debt lib v) := by
  have haware := h.aware j
  cases hj : p.phase j with
  | appended gate' w' =>
    rw [hj] at haware
    exact h.commanded_comm hji.symm hi (hj ▸ Phase.owns_appended gate' w') hw haware.1 v
  | _ => rfl

variable {db' : Db}

theorem settled_append {gate' : Gate} (hi : (p.phase i).Owns gate)
    (hidle : (p.phase i).debt lib = id)
    (hw : Due lib p.db (requests i) gate w) (hview : db'.view = p.db.view) :
    (p.set i db' (.appended gate' w)).settled lib = commanded lib w (p.settled lib) := by
  have hupdate := @settle_update _ _ (fun j => (p.phase j).debt lib) (finRange n) _
    (nodup_finRange n) i (mem_finRange i) hidle (commanded lib w)
    (fun j _ hj => h.debt_comm hj hi hw) p.db.view
  rw [settled, settled, ← hupdate, db_set, hview]
  refine settle_congr (fun j _ => ?_) _
  by_cases hji : j = i
  · subst hji
    rw [phase_set_self, Function.update_self]
    rfl
  · rw [p.phase_set_of_ne hji, Function.update_of_ne hji]

variable {phase : Phase}

theorem settled_change (hi : p.phase i = .appended gate w)
    (hview : db'.view = commanded lib w p.db.view) (hdone : phase.debt lib = id) :
    (p.set i db' phase).settled lib = p.settled lib := by
  have haware := h.aware i
  rw [hi] at haware
  have howns : (p.phase i).Owns gate := hi ▸ Phase.owns_appended gate w
  have hidle : ((p.set i db' phase).phase i).debt lib = id := by rw [phase_set_self, hdone]
  have hcomm : ∀ j ∈ finRange n, j ≠ i → ∀ v,
      ((p.set i db' phase).phase j).debt lib (commanded lib w v) =
        commanded lib w (((p.set i db' phase).phase j).debt lib v) := by
    intro j _ hji v
    rw [p.phase_set_of_ne hji]
    exact h.debt_comm hji howns haware.1 v
  have hupdate := @settle_update _ _ (fun j => ((p.set i db' phase).phase j).debt lib)
    (finRange n) _ (nodup_finRange n) i (mem_finRange i) hidle (commanded lib w) hcomm
    p.db.view
  have hold : settle (Function.update (fun j => ((p.set i db' phase).phase j).debt lib) i
      (commanded lib w)) (finRange n) p.db.view = p.settled lib := by
    refine settle_congr (fun j _ => ?_) _
    by_cases hji : j = i
    · subst hji
      rw [Function.update_self, hi]
      rfl
    · rw [Function.update_of_ne hji, p.phase_set_of_ne hji]
  rw [← hold, hupdate, settled, db_set, hview]
  refine settle_comm (fun j hj v => ?_) _
  by_cases hji : j = i
  · subst hji
    rw [hidle]
    rfl
  · exact hcomm j hj hji v

omit h in
theorem settled_move (hview : db'.view = p.db.view)
    (hdebt : phase.debt lib = (p.phase i).debt lib) :
    (p.set i db' phase).settled lib = p.settled lib := by
  rw [settled, settled, db_set, hview]
  refine settle_congr (fun j _ => ?_) _
  by_cases hji : j = i
  · subst hji
    rw [phase_set_self, hdebt]
  · rw [p.phase_set_of_ne hji]

theorem settled_collections (hi : (p.phase i).Owns gate)
    (hidle : (p.phase i).debt lib = id) {c : String} (hc : (requests i).collection? = some c) :
    (p.settled lib).collections[c]? = p.db.view.collections[c]? := by
  refine @settle_keep _ _ _ _ _ (fun v => v.collections[c]?) (fun j _ v => ?_) p.db.view
  by_cases hji : j = i
  · subst hji
    rw [hidle]
    rfl
  have haware := h.aware j
  cases hj : p.phase j with
  | appended gate' w' =>
    rw [hj] at haware
    have howns : (p.phase j).Owns gate' := hj ▸ Phase.owns_appended gate' w'
    obtain ⟨rfl, rfl⟩ := h.both_shared (Ne.symm hji) hi howns
    obtain ⟨c', m', -, hc', hm', -⟩ := haware.1.shared rfl
    obtain ⟨aim', haim'⟩ := haware.1.intended
    have hacts := haim'.intends
    rw [hm'] at hacts
    obtain ⟨act, hact⟩ := hacts.actsAt 0
    have hne : c' ≠ c := by
      rintro rfl
      exact h.collection_ne (Ne.symm hji) hi howns (hc.trans hc'.symm)
    have hown : commanded lib w' v = { v with collections := v.collections.alter c' act } := hact v
    change (commanded lib w' v).collections[c]? = _
    rw [hown, ExtTreeMap.getElem?_alter,
      if_neg fun heq => hne (LawfulEqCmp.eq_of_compare heq)]
  | _ => rfl

theorem settled_alone (hi : (p.phase i).gate? = some .exclusive) :
    p.settled lib = (p.phase i).debt lib p.db.view := by
  have hothers : ∀ j, j ≠ i → (p.phase j).debt lib = id := by
    intro j hji
    have hnone := h.alone i j hi hji
    cases hj : p.phase j with
    | appended gate w =>
      rw [hj] at hnone
      cases hnone
    | _ => rfl
  have hupdate := @settle_update _ _ (fun _ => id) (finRange n) _ (nodup_finRange n) i
    (mem_finRange i) rfl ((p.phase i).debt lib) (fun _ _ _ _ => rfl) p.db.view
  rw [settle_id fun _ _ => rfl] at hupdate
  rw [← hupdate]
  refine settle_congr (fun j _ => ?_) _
  by_cases hji : j = i
  · subst hji
    rw [Function.update_self]
  · rw [Function.update_of_ne hji, hothers j hji]

theorem meant_settled (hi : (p.phase i).Owns gate) (hidle : (p.phase i).debt lib = id)
    (hdue : Due lib p.db (requests i) gate w) (hmeant : Meant p.db (requests i) w) :
    ∃ ctx, w.batch.commands = (requests i).commands ctx (p.settled lib) := by
  obtain ⟨ctx, hctx⟩ := hmeant
  refine ⟨ctx, ?_⟩
  cases gate with
  | exclusive =>
    rw [h.settled_alone hi.held, hidle]
    exact hctx
  | shared =>
    obtain ⟨c, m, cell, hc, -⟩ := hdue.shared rfl
    rw [commands_congr hc (h.settled_collections hi hidle hc)]
    exact hctx

/-! ### Steps of one call -/

theorem advance (hstores : db'.storage.storesCommandLog)
    (hgate : phase.gate? ≠ none → ∀ j, j ≠ i → (p.phase j).gate? ≠ some .exclusive)
    (halone : phase.gate? = some .exclusive → ∀ j, j ≠ i → (p.phase j).gate? = none)
    (hlocks : phase.locks → (p.phase i).locks ∨
      ∃ c, (requests i).collection? = some c ∧ p.locked requests c = false)
    (haware : phase.Aware lib db' (requests i))
    (hothers : ∀ j, j ≠ i → (p.phase j).Aware lib db' (requests j)) :
    Orderly lib requests (p.set i db' phase) := by
  have hfree : ∀ j, j ≠ i → phase.locks = true → (p.phase j).locks = true →
      (requests i).collection? ≠ (requests j).collection? := by
    intro j hji hi hj hc
    rcases hlocks hi with hi | ⟨c, hown, hlock⟩
    · exact hji (h.apart j i hj hi hc.symm)
    · exact locked_eq_false.1 hlock j hj (hc.symm.trans hown)
  refine ⟨hstores, fun j k hj hkj => ?_, fun j k hj hk hc => ?_, fun j => ?_⟩
  · rcases set_cases Phase.gate? hj with ⟨rfl, hown⟩ | ⟨hji, hj⟩
    · rw [p.phase_set_of_ne hkj]
      exact halone hown k hkj
    · refine forall_set (fun k phase => k ≠ j → phase.gate? = none) (fun _ => ?_)
        (fun k _ => h.alone j k hj) k hkj
      by_contra hne
      exact hgate hne j hji hj
  · rcases set_cases Phase.locks hj with ⟨hji, hj⟩ | ⟨hji, hj⟩ <;>
      rcases set_cases Phase.locks hk with ⟨hki, hk⟩ | ⟨hki, hk⟩
    · rw [hji, hki]
    · exact absurd (hji ▸ hc) (hfree k hki hj hk)
    · exact absurd (hki ▸ hc).symm (hfree j hji hk hj)
    · exact h.apart j k hj hk hc
  · exact forall_set (fun j => Phase.Aware lib db' (requests j)) haware hothers j

theorem not_exclusive (hi : (p.phase i).gate? ≠ none)
    (hji : j ≠ i) : (p.phase j).gate? ≠ some .exclusive :=
  fun hj => hi (h.alone j i hj hji.symm)

theorem proceed (hstores : db'.storage.storesCommandLog)
    (hgate : phase.gate? = none ∨ phase.gate? = (p.phase i).gate?)
    (hlocks : phase.locks → (p.phase i).locks = true) (haware : phase.Aware lib db' (requests i))
    (hothers : ∀ j, j ≠ i → (p.phase j).Aware lib db' (requests j)) :
    Orderly lib requests (p.set i db' phase) := by
  refine h.advance hstores ?_ ?_ (fun hl => .inl (hlocks hl)) haware hothers
  · intro hne j hji
    rcases hgate with hnone | hsame
    · exact absurd hnone hne
    · exact h.not_exclusive (hsame ▸ hne) hji
  · intro hexclusive j hji
    rcases hgate with hnone | hsame
    · cases hnone.symm.trans hexclusive
    · exact h.alone i j (hsame.symm.trans hexclusive) hji

theorem aware_congr
    (hcollections : db'.collections = p.db.collections) (hview : db'.view = p.db.view) (j : Fin n) :
    (p.phase j).Aware lib db' (requests j) :=
  (h.aware j).congr hcollections hview

theorem aware_alone (hi : (p.phase i).gate? = some .exclusive) (db' : Db) (hji : j ≠ i) :
    (p.phase j).Aware lib db' (requests j) :=
  Phase.aware_of_gate (h.alone i j hi hji)

theorem due_of_planned {c : String}
    (hi : p.phase i = .planned w) (hc : (requests i).collection? = some c)
    (hversion : p.db.collections[c]?.map VersionedCollection.version = w.version) :
    Due lib p.db (requests i) .shared w ∧ Meant p.db (requests i) w := by
  have haware := h.aware i
  rw [hi] at haware
  obtain ⟨c', t, db₀, ctx, hc', ⟨c'', cell, hc'', hcell, ht⟩, ht₀, hstores, hplan⟩ := haware
  cases hc.symm.trans hc'
  cases hc.symm.trans hc''
  have hlocal : w.Local db₀ c := localPlan_local hplan hc hstores
  obtain ⟨m, hm⟩ := hlocal.effect
  obtain ⟨cell₀, hcell₀, hv⟩ := hlocal.version
  cases ht₀.symm.trans hcell₀
  have hsame : t = cell := by
    rcases ht with rfl | hlt
    · rfl
    · rw [hcell, hv] at hversion
      exact absurd (Option.some.inj hversion) hlt.ne'
  subst hsame
  have hview : db₀.view.collections[c]? = p.db.view.collections[c]? := by
    rw [Store.collections_view, Store.collections_view, ht₀, hcell]
  have hintended : w.Intended lib db₀.view _ := localPlan_intended hplan
  have hmeans : w.batch.commands = (requests i).commands ctx db₀.view :=
    localPlan_means hplan
  refine ⟨⟨⟨_, hintended.congr hm hview⟩, fun _ => ⟨c, m, t, hc, hm, hcell⟩⟩, ctx, ?_⟩
  rw [hmeans, commands_congr hc hview]

omit h in
theorem takes_of_due (h : Due lib p.db (requests i) .shared w) (hidx : w.effect.indexable lib) :
    ∃ c cell cell', (requests i).collection? = some c ∧ p.db.collections[c]? = some cell ∧
      Takes lib w c cell cell' := by
  obtain ⟨c, m, cell, hc, hm, hcell⟩ := h.shared rfl
  obtain ⟨aim, haim⟩ := h.intended
  obtain ⟨⟨answer, hok, hfound⟩, -⟩ := haim.intends.view hidx 0
  cases hfound c m hm
  rw [hm, Effect.apply, Store.ensureCollectionCell, hcell, Option.getD_some] at hok
  rcases hr : m.apply lib cell with ⟨_ | found, cell'⟩
  · rw [hr] at hok
    cases hok
  · rw [hr] at hok
    cases hok
    exact ⟨c, cell, cell', hc, hcell, m, hm, hr⟩

theorem aware_change (hi : p.phase i = .appended gate w) {answer : Answer} {store : Store}
    (happly : w.effect.apply lib p.db.toStore = (.ok answer, store)) (hji : j ≠ i) :
    (p.phase j).Aware lib { p.db with toStore := store } (requests j) := by
  have howns : (p.phase i).Owns gate := hi ▸ Phase.owns_appended gate w
  have haware := h.aware i
  rw [hi] at haware
  cases gate with
  | exclusive => exact h.aware_alone howns.held _ hji
  | shared =>
    obtain ⟨c, cell, cell', hc, hcell, htakes⟩ := takes_of_due haware.1 haware.2
    rw [htakes.apply hcell] at happly
    cases happly
    have hgate := h.not_exclusive (by rw [howns.held]; exact Option.some_ne_none _) hji
    by_cases hcj : (requests j).collection? = some c
    · have hlocks : (p.phase j).locks = false := by
        by_contra hl
        exact hji (h.apart j i (Bool.not_eq_false _ ▸ hl) (howns.locks rfl) (hcj.trans hc.symm))
      refine (h.aware j).bump hgate hlocks hcj hcell ?_ htakes.version_lt
      exact ExtTreeMap.getElem?_insert_self
    · refine (h.aware j).frame hgate fun c' hc' => ?_
      have hne : c ≠ c' := by
        rintro rfl
        exact hcj hc'
      change (p.db.collections.insert c cell')[c']? = _
      rw [ExtTreeMap.getElem?_insert, if_neg fun heq => hne (LawfulEqCmp.eq_of_compare heq)]

end Orderly

/-! ### The log and the calls -/

variable (lib) in
def Request.act (ctx : Ctx) (request : Request) (v : View) : View :=
  (request.commands ctx v).foldl (View.apply lib 0) v

variable (lib) in
def outcome (requests : Fin n → Request) (served : List (Fin n × Ctx)) (v : View) : View :=
  served.foldl (fun v x => Request.act lib x.2 (requests x.1) v) v

variable (lib) in
structure Traced (requests : Fin n → Request) (v : View) (p : Pool n)
    (served : List (Fin n × Ctx)) : Prop extends Orderly lib requests p where
  keyed : p.db.Keyed
  indexable : Core.Indexable lib p.db.view
  entries : ∀ entry ∈ p.db.storage.entries, Applicable lib entry
  shows : logView lib p.db.storage.entries = p.settled lib
  order : p.settled lib = outcome lib requests served v
  once : (served.map Prod.fst).Nodup
  logged : ∀ i, (p.phase i).logged = true → i ∈ served.map Prod.fst
  past : ∀ i ∈ served.map Prod.fst, (p.phase i).logged = true ∨ ∃ result, p.phase i = .done result
  answered : ∀ i a, p.phase i = .done (.ok a) → i ∈ served.map Prod.fst ∨ a = .bool false

variable (lib) in
structure Mirrored (db : Db) : Prop where
  stores : db.storage.storesCommandLog = true
  keyed : db.Keyed
  indexable : Core.Indexable lib db.view
  entries : ∀ entry ∈ db.storage.entries, Applicable lib entry
  shows : logView lib db.storage.entries = db.view

variable (lib) in
def Writable (i : Fin n) (p : Pool n) : Prop :=
  ∀ gate w sequences, p.phase i = .reserved gate w sequences → w.effect.indexable lib = true ∧
    ∀ record ∈ w.batch.numbered lib sequences, record.Readable lib

namespace Traced

variable {requests : Fin n → Request} {v : View} {p : Pool n} {served : List (Fin n × Ctx)}

theorem start {db : Db} (h : Mirrored lib db) : Traced lib requests db.view (start db) [] where
  toOrderly := .start h.stores
  keyed := h.keyed
  indexable := h.indexable
  entries := h.entries
  shows := h.shows.trans (settle_id (fun _ _ => rfl) _).symm
  order := settle_id (fun _ _ => rfl) _
  once := nodup_nil
  logged := nofun
  past := fun _ h => absurd h not_mem_nil
  answered := nofun

section Steps

variable (h : Traced lib requests v p served) {i : Fin n} {db' : Db} {phase : Phase}
include h

theorem calls : Entered p (served.map Prod.fst) fun _ result =>
    ∀ a, result = .ok a → a = .bool false where
  nodup := h.once
  logged := h.logged
  past := h.past
  answered := by
    rintro j (e | a) hj
    · exact .inr nofun
    · exact (h.answered j a hj).imp_right fun hfalse _ ha => Except.ok.inj ha ▸ hfalse

theorem advance (horderly : Orderly lib requests (p.set i db' phase)) (hkeyed : db'.Keyed)
    (hindexable : Core.Indexable lib db'.view) (hlog : db'.storage.entries = p.db.storage.entries)
    (hsettled : (p.set i db' phase).settled lib = p.settled lib)
    (hlogged : (p.phase i).logged ∧ (phase.logged ∨ ∃ result, phase = .done result) ∨
      (p.phase i).logged = false ∧ phase.logged = false ∧ (∀ result, p.phase i ≠ .done result) ∧
        ∀ result, phase = .done result → ∀ a, result = .ok a → a = .bool false) :
    Traced lib requests v (p.set i db' phase) served where
  toOrderly := horderly
  keyed := hkeyed
  indexable := hindexable
  entries := by
    rw [db_set, hlog]
    exact h.entries
  shows := by
    rw [db_set, hlog, hsettled]
    exact h.shows
  order := hsettled.trans h.order
  once := h.once
  logged := (h.calls.set db' hlogged).logged
  past := (h.calls.set db' hlogged).past
  answered := fun j a hj => ((h.calls.set db' hlogged).answered j _ hj).imp_right fun hfalse =>
    hfalse a rfl

theorem move {current : Phase} (hi : p.phase i = current) (hold : current.logged = false)
    (hopen : ∀ result, current ≠ .done result) (hstore : db'.toStore = p.db.toStore)
    (hlog : db'.storage.entries = p.db.storage.entries) (hnew : phase.logged = false)
    (hfalse : ∀ a, phase = .done (.ok a) → a = .bool false)
    (horderly : Orderly lib requests (p.set i db' phase)) :
    Traced lib requests v (p.set i db' phase) served := by
  subst hi
  have hview : db'.view = p.db.view := by rw [hstore]
  have hdebt : phase.debt lib = (p.phase i).debt lib := by
    rw [Phase.debt_of_not_logged hold, Phase.debt_of_not_logged hnew]
  refine h.advance horderly ?_ ?_ hlog (Orderly.settled_move hview hdebt)
    (.inr ⟨hold, hnew, hopen, fun _ hresult a ha => hfalse a (ha ▸ hresult)⟩)
  · rw [hstore]
    exact h.keyed
  · rw [hview]
    exact h.indexable

variable {w : Write} {gate : Gate}

theorem append {ctx : Ctx} {sequences ns : List Nat}
    (hi : p.phase i = .reserved gate w sequences) (hw : Writable lib i p)
    (happend : p.db.appendNumbered lib ctx.nowNs (w.batch.numbered lib sequences) sequences =
      (.ok ns, db')) :
    ∃ ctx', Traced lib requests v (p.set i db' (.appended gate w)) (served ++ [(i, ctx')]) := by
  obtain ⟨hidx, hread⟩ := hw gate w sequences hi
  have haware := h.aware i
  rw [hi] at haware
  obtain ⟨hdue, hmeant, start, hpos, rfl⟩ := haware
  have howns : (p.phase i).Owns gate := hi ▸ Phase.owns_reserved gate w _
  have hidle : (p.phase i).debt lib = id := by rw [hi]; rfl
  obtain ⟨ctx', hctx'⟩ := h.meant_settled howns hidle hdue hmeant
  obtain ⟨aim, haim⟩ := hdue.intended
  obtain ⟨entries, storage, hencode, hlog, hstores, rfl⟩ := Db.appendNumbered_ok happend
  have hlen : (range' start w.batch.count).length =
      (w.batch.numbered lib (range' start w.batch.count)).length := by
    rw [length_range', w.batch.length_numbered]
  have hholds := holds_encodeEntries hlen hencode hread
  have hcommands := w.batch.commands_numbered lib (range' start w.batch.count)
  have hsound := @sound_of_commands lib _ (by rw [hcommands]; exact haim.intends.replayable hidx)
    (by rw [hcommands]; exact haim.intends.absolute)
  have hsettled : (p.set i { p.db with storage } (.appended gate w)).settled lib =
      commanded lib w (p.settled lib) := h.settled_append howns hidle hdue rfl
  have hcalls := (h.calls.append (i := i) { p.db with storage } (.appended gate w)
    (by rw [hi]; rfl) (by rw [hi]; exact fun _ => nofun) rfl).2
  rw [← map_singleton (f := Prod.fst) (a := (i, ctx')), ← map_append] at hcalls
  refine ⟨ctx', h.proceed (hstores.trans h.stores) ?_ ?_ ⟨?_, hidx⟩ fun j _ => ?_, h.keyed,
    h.indexable, ?_, ?_, ?_, hcalls.nodup, hcalls.logged, hcalls.past, fun j a hj => ?_⟩
  · exact .inr (by rw [hi]; rfl)
  · intro hl
    rw [hi]
    cases gate <;> exact hl
  · exact And.left (hdue.congr rfl rfl)
  · refine h.aware_congr ?_ ?_ j <;> rfl
  · intro entry he
    rw [db_set] at he
    rw [hlog] at he
    rcases mem_append.1 he with he | he
    · exact h.entries entry he
    · obtain ⟨record, hr, hdecode⟩ := hholds.exists_record he
      refine ⟨?_, record, hdecode, hsound record hr⟩
      have hmem := mem_map_of_mem (f := StorageEntry.sequence) he
      rw [sequence_encodeEntries hlen hencode] at hmem
      have hle := (mem_range'_1.1 hmem).1
      omega
  · rw [hsettled, db_set]
    rw [hlog, logView_append, h.shows, hholds.foldl_applyEntry, foldl_applyRecord, hcommands]
    rfl
  · rw [hsettled, outcome, foldl_append, foldl_cons, foldl_nil, ← outcome, ← h.order,
      Request.act, ← hctx']
    rfl
  · exact (hcalls.answered j _ hj).imp_right fun hfalse => hfalse a rfl

theorem create {c : String} (hi : p.phase i = .appended gate w)
    (hmissing : missing p.db.toStore w.effect = some c) :
    Traced lib requests v
      (p.set i { p.db with toStore := p.db.setCell c (p.db.ensureCollectionCell c) }
        (.appended gate w)) served := by
  have haware := h.aware i
  rw [hi] at haware
  obtain ⟨hdue, hidx⟩ := haware
  have howns : (p.phase i).Owns gate := hi ▸ Phase.owns_appended gate w
  have hc : p.db.collections[c]? = none ∧ ∃ m, w.effect = .mutate c m := by
    cases heffect : w.effect with
    | mutate c' m =>
      rw [heffect, missing] at hmissing
      split at hmissing
      · cases hmissing
      next hcontains =>
        cases hmissing
        rw [ExtTreeMap.contains_eq_isSome_getElem?, Option.not_isSome_iff_eq_none] at hcontains
        exact ⟨hcontains, m, rfl⟩
    | _ =>
      rw [heffect] at hmissing
      cases hmissing
  obtain ⟨hnone, m, hm⟩ := hc
  cases gate with
  | shared =>
    obtain ⟨c', m', cell, -, hm', hcell⟩ := hdue.shared rfl
    cases hm.symm.trans hm'
    cases hnone.symm.trans hcell
  | exclusive =>
    have hempty : (p.db.setCell c (p.db.ensureCollectionCell c)).view =
        { p.db.view with collections := p.db.view.collections.insert c ∅ } := by
      rw [Store.view_setCell, Store.objects_ensureCollectionCell, Store.collections_view, hnone]
      rfl
    obtain ⟨aim, haim⟩ := hdue.intended
    -- only SET does not need its object to be there
    have hnone' : p.db.view.collections[c]? = none := by rw [Store.collections_view, hnone]; rfl
    obtain ⟨record, hcommands, rfl, hupsert⟩ := haim.intends.of_missing hm hnone'
    have hsame : commanded lib w (p.db.setCell record.collection
        (p.db.ensureCollectionCell record.collection)).view = commanded lib w p.db.view := by
      rw [hempty, commanded, commanded, hcommands]
      exact View.upsert_insert_empty hnone' _
    have horderly : Orderly lib requests (p.set i { p.db with
        toStore := p.db.setCell record.collection (p.db.ensureCollectionCell record.collection) }
        (.appended .exclusive w)) := by
      refine h.proceed h.stores (.inr (by rw [hi])) (fun hl => by rw [hi]; exact hl) ?_
        fun j hji => h.aware_alone howns.held _ hji
      exact ⟨⟨⟨aim, hupsert _, haim.replies⟩, (fun h => by cases h)⟩, hidx⟩
    refine h.advance horderly ?_ ?_ rfl ?_ (.inl ⟨by rw [hi]; rfl, .inl rfl⟩)
    · exact h.keyed.effect lib (.createCollection record.collection)
    · rw [hempty]
      refine h.indexable.of_collections fun c' objects hc' => ?_
      rw [ExtTreeMap.getElem?_insert] at hc'
      split at hc'
      · exact .inl (Option.some.inj hc').symm
      · exact .inr ⟨c', hc'⟩
    · have hgate : ((p.set i { p.db with
          toStore := p.db.setCell record.collection (p.db.ensureCollectionCell record.collection) }
          (.appended .exclusive w)).phase i).gate? = some .exclusive := by
        rw [phase_set_self]
        rfl
      rw [horderly.settled_alone hgate, h.settled_alone howns.held, phase_set_self, hi]
      exact hsame

theorem change {result : Except CoreError Answer} {store : Store}
    (hi : p.phase i = .appended gate w)
    (happly : w.effect.apply lib p.db.toStore = (result, store)) :
    ∃ answer, result = .ok answer ∧ retries gate w.effect answer = false ∧
      Traced lib requests v (p.set i { p.db with toStore := store } (.changed gate w answer))
        served := by
  have haware := h.aware i
  rw [hi] at haware
  obtain ⟨hdue, hidx⟩ := haware
  obtain ⟨aim, haim⟩ := hdue.intended
  obtain ⟨⟨answer, hok, hfound⟩, hview⟩ := haim.intends.view hidx 0
  have hkeyed := h.keyed.effect lib w.effect
  rw [happly] at hok hview hkeyed
  subst hok
  refine ⟨answer, rfl, ?_, h.advance ?_ hkeyed ?_ rfl ?_ (.inl ⟨by rw [hi]; rfl, .inl rfl⟩)⟩
  · cases gate with
    | exclusive => rfl
    | shared =>
      obtain ⟨c, m, cell, -, hm, -⟩ := hdue.shared rfl
      rw [hfound c m hm]
      exact retries_found _ _
  · refine h.proceed h.stores (.inr (by rw [hi]; rfl)) nofun trivial ?_
    exact fun j hji => h.aware_change hi happly hji
  · rw [hview]
    exact haim.intends.indexable_view hidx h.indexable
  · exact h.settled_change hi hview rfl

theorem finish {answer : Answer} (hi : p.phase i = .changed gate w answer)
    (result : Except CoreError Answer) :
    Traced lib requests v
      (p.set i { p.db with toStore := p.db.applyPlanned (fences w answer) } (.done result))
      served := by
  have hview := p.db.view_applyPlanned (fences w answer)
  refine h.advance ?_ h.keyed ?_ rfl (Orderly.settled_move hview (by rw [hi]; rfl))
    (.inl ⟨by rw [hi]; rfl, .inr ⟨result, rfl⟩⟩)
  · refine h.proceed h.stores (.inl rfl) nofun trivial fun j _ => ?_
    refine h.aware_congr ?_ hview j
    rfl
  · exact h.indexable

theorem plan {c : String} {cell : Option VersionedCollection} {ctx : Ctx}
    (hi : p.phase i = .read cell) (hc : (requests i).collection? = some c)
    (hplan : (requests i).localPlan lib (showing p.db c cell) ctx = some (.write w)) :
    Traced lib requests v (p.set i p.db (.planned w)) served := by
  have hstores : (showing p.db c cell).storage.storesCommandLog = true := h.stores
  have hcell : (showing p.db c cell).collections[c]? = cell := by
    exact ExtTreeMap.getElem?_alter_self
  have hlocal : w.Local (showing p.db c cell) c := localPlan_local hplan hc hstores
  obtain ⟨t, ht, -⟩ := hlocal.version
  cases hcell.symm.trans ht
  have haware := h.aware i
  rw [hi] at haware
  refine h.move hi rfl (fun _ => nofun) rfl rfl rfl nofun ?_
  refine h.proceed h.stores (.inr (by rw [hi]; rfl)) nofun ?_ fun j _ => h.aware j
  exact ⟨c, t, showing p.db c (some t), ctx, hc, haware, hcell, hstores, hplan⟩

theorem relog {storage : LogStore} (nextSequence : Nat) (hstores : storage.storesCommandLog)
    (hentries : ∀ entry ∈ storage.entries, Applicable lib entry)
    (hshows : logView lib storage.entries = p.settled lib) :
    Traced lib requests v { p with db := { p.db with storage, nextSequence } } served where
  stores := hstores
  alone := h.alone
  apart := h.apart
  aware := by
    intro j
    refine h.aware_congr ?_ ?_ j <;> rfl
  keyed := h.keyed
  indexable := h.indexable
  entries := hentries
  shows := hshows
  order := h.order
  once := h.once
  logged := h.logged
  past := h.past
  answered := h.answered

end Steps

theorem step (h : Traced lib requests v p served) {action : Fin n × Ctx} {p' : Pool n}
    (hw : Writable lib action.1 p) (hstep : p.step lib requests action = some p') :
    ∃ served', Traced lib requests v p' served' := by
  obtain ⟨db', phase, hmoves, rfl⟩ := step_cases hstep
  obtain ⟨i, ctx⟩ := action
  have hothers : ∀ j, j ≠ i → (p.phase j).Aware lib p.db (requests j) := fun j _ => h.aware j
  generalize hi : p.phase i = current at hmoves
  cases hmoves with
  | skip hc | yield hc hplan =>
    refine ⟨served, h.move hi rfl (fun _ => nofun) rfl rfl rfl nofun ?_⟩
    exact h.proceed h.stores (.inl rfl) nofun trivial hothers
  | enter hc hgate =>
    refine ⟨served, h.move hi rfl (fun _ => nofun) rfl rfl rfl nofun ?_⟩
    exact h.toOrderly.advance h.stores (fun _ j _ => gateHeld_eq_false.1 hgate j) nofun nofun
      trivial hothers
  | @read c hc hlock =>
    refine ⟨served, h.move hi rfl (fun _ => nofun) rfl rfl rfl nofun ?_⟩
    refine h.proceed h.stores (.inr (by rw [hi]; rfl)) nofun ?_ hothers
    cases hcell : p.db.collections[c]? with
    | none => trivial
    | some cell => exact ⟨c, cell, hc, hcell, .inl rfl⟩
  | plan hc hplan => exact ⟨served, h.plan hi hc hplan⟩
  | answer hc hplan =>
    refine ⟨served, h.move hi rfl (fun _ => nofun) rfl rfl rfl ?_ ?_⟩
    · intro a ha
      cases ha
      exact (localPlan_means hplan a rfl).1
    · exact h.proceed h.stores (.inl rfl) nofun trivial hothers
  | @lock c w hc hlock hversion =>
    refine ⟨served, h.move hi rfl (fun _ => nofun) rfl rfl rfl nofun ?_⟩
    refine h.toOrderly.advance h.stores ?_ nofun (fun _ => .inr ⟨c, hc, hlock⟩)
      (h.due_of_planned hi hc hversion) hothers
    exact fun _ j hji => h.not_exclusive (by rw [hi]; exact nofun) hji
  | retry hc hversion =>
    refine ⟨served, h.move hi rfl (fun _ => nofun) rfl rfl rfl nofun ?_⟩
    exact h.proceed h.stores (.inr (by rw [hi]; rfl)) nofun trivial hothers
  | @planAlone w hshared hexclusive hplan =>
    refine ⟨served, h.move hi rfl (fun _ => nofun) rfl rfl rfl nofun ?_⟩
    have hintended := @exclusivePlan_intended lib p.db ctx (requests i)
    have hmeans := exclusivePlan_means lib p.db ctx (requests i)
    rw [hplan] at hintended hmeans
    refine h.toOrderly.advance h.stores (fun _ j _ => gateHeld_eq_false.1 hexclusive j) ?_ nofun
      ⟨⟨⟨_, hintended⟩, nofun⟩, ctx, hmeans⟩ hothers
    exact fun _ j _ => gate_eq_none hshared hexclusive j
  | answerAlone hshared hexclusive hplan =>
    refine ⟨served, h.move hi rfl (fun _ => nofun) rfl rfl rfl ?_ ?_⟩
    · intro a ha
      cases ha
      have hmeans := exclusivePlan_means lib p.db ctx (requests i)
      rw [hplan] at hmeans
      exact (hmeans a rfl).1
    · exact h.proceed h.stores (.inl rfl) nofun trivial hothers
  | @reserve gate w =>
    have haware := h.aware i
    rw [hi] at haware
    refine ⟨served, h.move hi rfl (fun _ => nofun) rfl rfl rfl nofun ?_⟩
    refine h.proceed h.stores (.inr (by rw [hi]; rfl)) (fun hl => ?_) ?_ fun j _ => ?_
    · rw [hi]
      cases gate <;> exact hl
    · exact ⟨And.left (haware.1.congr rfl rfl), haware.2, _, Nat.succ_pos _, rfl⟩
    · refine h.aware_congr ?_ ?_ j <;> rfl
  | append happend =>
    obtain ⟨ctx', htraced⟩ := h.append hi hw happend
    exact ⟨_, htraced⟩
  | refuse happend =>
    obtain ⟨storage, hsame, rfl⟩ := Db.appendNumbered_error happend
    refine ⟨served, h.move hi rfl (fun _ => nofun) rfl hsame.entries rfl nofun ?_⟩
    refine h.proceed (hsame.stores.trans h.stores) (.inl rfl) nofun trivial fun j _ => ?_
    refine h.aware_congr ?_ ?_ j <;> rfl
  | create hmissing => exact ⟨served, h.create hi hmissing⟩
  | fail hmissing happly =>
    obtain ⟨answer, hok, -⟩ := h.change hi happly
    cases hok
  | change hmissing happly =>
    obtain ⟨answer, hok, hretries, htraced⟩ := h.change hi happly
    cases hok
    rw [if_neg (by rw [hretries]; exact Bool.false_ne_true)]
    exact ⟨served, htraced⟩
  | finish => exact ⟨served, h.finish hi _⟩

end Traced

end LatLng.Concurrent
