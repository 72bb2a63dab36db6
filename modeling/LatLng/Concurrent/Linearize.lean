import LatLng.Concurrent.OneCollection

/-! Local commands on one collection, one after the other: every finished run of the pool gives
the answers, the objects and the log of a sequential run in an order that respects time. -/

namespace LatLng.Concurrent

open LatLng.Core Geo Storage LatLng.Lib Std List

variable {lib : Lib} {n : Nat}

/-! ### Sequential runs -/

structure Served (n : Nat) where
  call : Fin n
  ctx : Ctx
  result : Except CoreError Answer
  logged : List StorageEntry

variable (lib) in
def Logs : Plan → List StorageEntry → Prop
  | .done _, entries => entries = []
  | .write w, entries => Carries lib w.batch.commands entries

variable (lib) in
inductive Sequential (requests : Fin n → Request) : Db → List (Served n) → Db → Prop
  | nil (db : Db) : Sequential requests db [] db
  | cons {db db' db'' : Db} {x : Served n} {rest : List (Served n)}
    (hperform : db.perform lib x.ctx (requests x.call) = (x.result, db'))
    (hlogs : Logs lib ((requests x.call).plan lib db x.ctx) x.logged)
    (hrest : Sequential requests db' rest db'') : Sequential requests db (x :: rest) db''

structure Stands (config : Config) (c : String) (cell : VersionedCollection) (db : Db) : Prop
    extends Sees config c cell db where
  faults : db.storage.faults = []
  opened : db.storage.closed = false
  counted : ∀ last ∈ db.storage.entries.getLast?, last.sequence ≤ db.nextSequence

namespace Stands

variable {config : Config} {c : String} {cell cell' : VersionedCollection} {db : Db} {ctx : Ctx}
  {request : Request}

theorem plan (h : Stands config c cell db) (hc : request.collection? = some c) {plan : Plan}
    (hdecides : Decides lib config c request ctx cell plan) :
    ∃ plan', request.plan lib db ctx = plan' ∧ Decides lib config c request ctx cell plan' ∧
      Agree plan plan' := by
  obtain ⟨db₀, hsees, hplan⟩ := hdecides
  obtain ⟨plan₁, plan₂, h₁, h₂, hagree⟩ := hsees.localPlan h.toSees hc
  cases hplan.symm.trans h₁
  refine ⟨plan₂, ?_, ⟨db, h.toSees, h₂⟩, hagree⟩
  rw [Request.plan, h₂, Option.getD_some]

theorem answer (h : Stands config c cell db) (hc : request.collection? = some c)
    {result : Except CoreError Answer}
    (hdecides : Decides lib config c request ctx cell (.done result)) :
    request.plan lib db ctx = .done result ∧ db.perform lib ctx request = (result, db) := by
  obtain ⟨plan', hplan, -, hagree⟩ := h.plan hc hdecides
  cases plan' with
  | done result' =>
    cases hagree
    rw [Db.perform, hplan]
    exact ⟨rfl, rfl⟩
  | write w => exact hagree.elim

theorem commit (hjson : lib.codec.Total)
    (h : Stands config c cell db) (hc : request.collection? = some c) {w : Write}
    (hdecides : Decides lib config c request ctx cell (.write w))
    (htakes : Takes lib w c cell cell') :
    ∃ w' db', request.plan lib db ctx = .write w' ∧ w'.batch.commands = w.batch.commands ∧
      db.perform lib ctx request = (w.reply (.bool true), db') ∧ Stands config c cell' db' ∧
      ∀ c', c' ≠ c → db'.collections[c']? = db.collections[c']? := by
  obtain ⟨plan', hplan, hdecides', hagree⟩ := h.plan hc hdecides
  cases plan' with
  | done result => exact hagree.elim
  | write w' =>
    obtain ⟨hcommands, heffect, -, hreply⟩ := hagree
    have hpos := hdecides'.count_pos
    obtain ⟨hhead, hreservation⟩ := Reservation.next hpos h.counted
    obtain ⟨entries, -, happend, hlast⟩ := hreservation.append hjson h.faults h.opened ctx.nowNs
    have htakes' : Takes lib w' c cell cell' := by
      obtain ⟨m, hm, happly⟩ := htakes
      exact ⟨m, heffect ▸ hm, happly⟩
    have happly : w'.apply lib db.toStore =
        (w.reply (.bool true), (db.setCell c cell').applyPlanned w'.planned) := by
      rw [htakes'.write h.cell, hreply]
    have hperform : db.perform lib ctx request = (w.reply (.bool true),
        { db with
          nextSequence := db.nextSequence + w'.batch.count
          storage := { db.storage with entries := db.storage.entries ++ entries }
          toStore := (db.setCell c cell').applyPlanned w'.planned }) := by
      rw [Db.perform, hplan, Db.finish, Db.commit, db.persist_of_pos lib ctx hpos,
        if_pos h.stores, happend]
      dsimp only
      rw [happly]
    refine ⟨w', _, hplan, hcommands.symm, hperform, ⟨⟨?_, h.config, h.stores, ?_⟩, h.faults,
      h.opened, ?_⟩, ?_⟩
    · exact ExtTreeMap.getElem?_insert_self
    · exact (Simulates.roams_applyPlanned _ _ c).trans h.roams
    · intro last hl
      have hlt := hlast last hl
      dsimp only
      omega
    · intro c' hc'
      dsimp only [Store.applyPlanned, Store.setCell]
      rw [ExtTreeMap.getElem?_insert,
        if_neg fun heq => hc' (LawfulEqCmp.eq_of_compare heq).symm]

end Stands

theorem sequential_of_serial (hjson : lib.codec.Total)
    {config : Config} {c : String} {requests : Fin n → Request}
    (hc : ∀ i, (requests i).collection? = some c) {s t : Seen}
    {calls : List (Fin n × Ctx × Except CoreError Answer)}
    (h : Optimistic.Serial (protocol lib config c requests) s calls t) {db : Db}
    (hdb : Stands config c s.cell db) :
    ∃ order db', Sequential lib requests db order db' ∧ Stands config c t.cell db' ∧
      order.map (fun x => (x.call, x.ctx, x.result)) = calls ∧
      t.log = s.log ++ order.flatMap Served.logged ∧
      ∀ c', c' ≠ c → db'.collections[c']? = db.collections[c']? := by
  induction h generalizing db with
  | nil s => exact ⟨[], db, .nil db, hdb, rfl, (append_nil _).symm, fun _ _ => rfl⟩
  | @answer i ctx result s t calls hdecides hrest ih =>
    obtain ⟨hplan, hperform⟩ := hdb.answer (hc i) hdecides
    obtain ⟨order, db', hseq, hstands, hcalls, hlog, hothers⟩ := ih hdb
    refine ⟨⟨i, ctx, result, []⟩ :: order, db', .cons hperform ?_ hseq, hstands, ?_, ?_, hothers⟩
    · rw [hplan]
      exact rfl
    · rw [map_cons, hcalls]
    · rw [flatMap_cons, nil_append, hlog]
  | @commit i ctx result s s' t calls hcommits hrest ih =>
    obtain ⟨w, block, hdecides, htakes, hcarries, hblock, rfl⟩ := hcommits
    obtain ⟨w', mid, hplan, hcommands, hperform, hmid, hframe⟩ :=
      hdb.commit hjson (hc i) hdecides htakes
    obtain ⟨order, db', hseq, hstands, hcalls, hlog, hothers⟩ := ih hmid
    refine ⟨⟨i, ctx, w.reply (.bool true), block⟩ :: order, db', .cons hperform ?_ hseq, hstands, ?_,
      ?_, fun c' hc' => (hothers c' hc').trans (hframe c' hc')⟩
    · rw [hplan, Logs, hcommands]
      exact hcarries
    · rw [map_cons, hcalls]
    · rw [flatMap_cons, hlog, hblock, append_assoc]

/-! ### SET NX -/

section Nx

variable {config : Config} {c id : String} {requests : Fin n → Request}

variable (lib) in
def SetsNew (c id : String) (request : Request) : Prop :=
  ∃ req, request = .set req ∧ req.collection = c ∧ req.id = id ∧ req.condition = .nx ∧
    req.object.validate lib.toGeoLib = .ok ()

theorem SetsNew.decides {request : Request} (h : SetsNew lib c id request)
    (hwritable : config.readOnly = false) {ctx : Ctx} {cell : VersionedCollection} {plan : Plan}
    (hdecides : Decides lib config c request ctx cell plan) :
    (cell.objects[id]? = none → ∃ w object, plan = .write w ∧ object.id = id ∧
      w.effect = .mutate c (.upsert object) ∧ w.reply = fun _ => .ok (.bool true)) ∧
    (cell.objects[id]?.isSome → plan = .done (.ok (.bool false))) := by
  obtain ⟨req, rfl, rfl, rfl, hnx, hvalid⟩ := h
  obtain ⟨db, hsees, hplan⟩ := hdecides
  have hok : db.ensureWritable = .ok () := by
    rw [Db.ensureWritable_ok_iff, hsees.config, hwritable]
  rw [Request.localPlan, hvalid, Db.trySetLocal, hok, hsees.roams, hsees.cell] at hplan
  dsimp only at hplan
  rw [if_neg Bool.false_ne_true, if_neg (by simp [hsees.stores])] at hplan
  cases hplan
  rw [Db.planSet, hsees.getObject, hnx]
  constructor
  · intro hnone
    rw [hnone]
    obtain ⟨webhooks, hw⟩ := db.webhookRecords_planMutation lib ctx
      { command := .set, collection := req.collection, id := req.id, before := none
        after := some (Db.setObject ctx req none), timestampNs := ctx.nowNs }
    rw [Db.planEvent, hw]
    exact ⟨_, _, rfl, rfl, rfl, rfl⟩
  · intro hsome
    obtain ⟨before, hbefore⟩ := Option.isSome_iff_exists.1 hsome
    rw [hbefore]

theorem objects_upsert {object : Object} {cell cell' : VersionedCollection}
    (h : (Mutation.upsert object).apply lib cell = (.ok true, cell')) :
    cell'.objects = cell.objects.insert object.id object := by
  rcases hidx : object.geo.indexable lib.toGeoLib with _ | _
  · obtain ⟨e, herr⟩ := Mutation.apply_of_not_indexable (m := .upsert object) cell hidx rfl
    rw [h] at herr
    cases herr
  · have hobjects := (Mutation.apply_of_indexable lib (m := .upsert object) cell hidx).2
    rw [h] at hobjects
    exact hobjects

variable (hall : ∀ i, SetsNew lib c id (requests i)) (hwritable : config.readOnly = false)
  {s t : Seen} {calls : List (Fin n × Ctx × Except CoreError Answer)}
include hall hwritable

theorem false_of_taken (h : Optimistic.Serial (protocol lib config c requests) s calls t)
    (hsome : s.cell.objects[id]?.isSome) : ∀ x ∈ calls, x.2.2 = .ok (.bool false) := by
  induction h with
  | nil s => exact fun x hx => absurd hx not_mem_nil
  | @answer i ctx result s t calls hdecides _ ih =>
    cases ((hall i).decides hwritable hdecides).2 hsome
    exact forall_mem_cons.2 ⟨rfl, ih hsome⟩
  | @commit i ctx result s s' t calls hcommits _ ih =>
    obtain ⟨w, block, hdecides, -⟩ := hcommits
    cases ((hall i).decides hwritable hdecides).2 hsome

theorem first_of_fresh (h : Optimistic.Serial (protocol lib config c requests) s calls t)
    (hnone : s.cell.objects[id]? = none) (hne : calls ≠ []) :
    ∃ x rest, calls = x :: rest ∧ x.2.2 = .ok (.bool true) ∧
      ∀ y ∈ rest, y.2.2 = .ok (.bool false) := by
  cases h with
  | nil => exact absurd rfl hne
  | answer hdecides _ =>
    obtain ⟨w, object, hw, -⟩ := ((hall _).decides hwritable hdecides).1 hnone
    cases hw
  | commit hcommits hrest =>
    obtain ⟨w, block, hdecides, ⟨m, hm, happly⟩, -, -, rfl⟩ := hcommits
    obtain ⟨w', object, hw, hid, heffect, hreply⟩ := ((hall _).decides hwritable hdecides).1 hnone
    cases hw
    cases hm.symm.trans heffect
    refine ⟨_, _, rfl, by rw [hreply], false_of_taken hall hwritable hrest ?_⟩
    rw [objects_upsert happly, hid, ExtTreeMap.getElem?_insert_self]
    rfl

end Nx

/-- Local commands on one collection are linearizable: some order that respects time gives the
same answers and the same objects, and the log holds the commands of each call once in that
order. Of SET NX calls on a fresh id exactly one stores its object. -/
theorem local_commands_linearizable
    (hjson : ∀ record, ∃ payload, lib.codec.toJson record = .ok payload) {db : Db} {c : String}
    {requests : Fin n → Request} (hs : OnOne db c requests) {schedule : List (Fin n × Ctx)}
    {p : Pool n} (hmeet : StepsMeet (Pool.step lib requests) (Indexable lib) schedule (.start db))
    (hrun : runSteps (Pool.step lib requests) schedule (.start db) = some p)
    {result : Fin n → Except CoreError Answer} (hdone : ∀ i, p.phase i = .done (result i)) :
    (∃ (order : List (Served n)) (db' : Db),
      (order.map Served.call).Nodup ∧ (∀ i, i ∈ order.map Served.call) ∧
      (∀ x ∈ order, (x.call, x.ctx) ∈ schedule ∧ x.result = result x.call) ∧
      (∀ i j, Optimistic.Precedes schedule i j → [i, j].Sublist (order.map Served.call)) ∧
      Sequential lib requests db order db' ∧ db'.collections = p.db.collections ∧
      p.db.storage.entries = db.storage.entries ++ order.flatMap Served.logged) ∧
    ∀ id, db.getObject c id = none → db.config.readOnly = false → 0 < n →
      (∀ i, SetsNew lib c id (requests i)) → ∃! i, result i = .ok (.bool true) := by
  obtain ⟨cell, hcell, hstart⟩ := Simulates.start lib hs
  obtain ⟨s, hprotocol, hsim⟩ := hstart.run hjson hs hmeet hrun
  have hdone' : ∀ i, s.phase i = .done (result i) := by
    intro i
    have hmatch := hsim.phases i
    rw [hdone i] at hmatch
    exact hmatch
  obtain ⟨calls, hnodup, hmem, hcalls, htime, hserial⟩ := Optimistic.linearizable hprotocol hdone'
  constructor
  · have hdb : Stands db.config c cell db :=
      ⟨⟨hcell, rfl, hs.stores, hs.roams⟩, hs.faults, hs.opened, hs.counted⟩
    obtain ⟨order, db', hseq, hstands, hmap, hlog, hothers⟩ :=
      sequential_of_serial hjson hs.collection hserial hdb
    have hfst : order.map Served.call = calls.map Prod.fst := by
      rw [← hmap, map_map]
      rfl
    refine ⟨order, db', hfst ▸ hnodup, hfst ▸ hmem, ?_, hfst ▸ htime, hseq, ?_, ?_⟩
    · intro x hx
      have hx' : (x.call, x.ctx, x.result) ∈ calls := hmap ▸ mem_map_of_mem hx
      exact hcalls _ hx'
    · apply ExtTreeMap.ext_getElem?
      intro c'
      by_cases hc' : c' = c
      · rw [hc', hstands.cell, hsim.cell]
      · rw [hothers c' hc', hsim.others c' hc']
    · obtain ⟨block, hblock, -, hnone⟩ := hsim.log
      have hempty : block = [] := by
        refine hnone fun i gate w hi => ?_
        cases hi.symm.trans (hdone i)
      rw [hblock, hempty, append_nil, hlog]
  · intro id hnone hwritable hpos hall
    rw [Db.getObject, hcell, Option.bind_some] at hnone
    have hne : calls ≠ [] := by
      rintro rfl
      exact absurd (hmem ⟨0, hpos⟩) not_mem_nil
    obtain ⟨x, rest, rfl, htrue, hfalse⟩ := first_of_fresh hall hwritable hserial hnone hne
    have hx := (hcalls x mem_cons_self).2
    refine ⟨x.1, hx.symm.trans htrue, fun j hj => ?_⟩
    rcases mem_cons.1 (hmem j) with heq | hrest
    · exact heq
    · obtain ⟨y, hy, rfl⟩ := mem_map.1 hrest
      have hresult := (hcalls y (mem_cons_of_mem _ hy)).2
      rw [hfalse y hy, hj] at hresult
      cases hresult

def twoNewTrucks : Fin 2 → Request := fun _ =>
  .set { collection := "fleet", id := "truck", object := .string "idle", fields := []
         expireSeconds := none, condition := .nx }

open Sample in
/-- Both calls find the id free and plan to store; the second one has to look again. -/
theorem one_new_truck :
    let schedule := replicate 3 ((0 : Fin 2), sampleCtx) ++ replicate 3 (1, sampleCtx) ++
      replicate 5 (0, sampleCtx) ++ replicate 3 (1, sampleCtx)
    ∃ (p : Pool 2) (result : Fin 2 → Except CoreError Answer),
      runSteps (Pool.step blankLib twoNewTrucks) schedule (.start fleetAndYard) = some p ∧
      (∀ i, p.phase i = .done (result i)) ∧ ∃! i, result i = .ok (.bool true) := by
  intro schedule
  have hone : OnOne fleetAndYard "fleet" twoNewTrucks := by
    refine ⟨rfl, rfl, rfl, fun last hlast => ?_, fun _ => rfl, rfl, rfl⟩
    cases hlast
  have hmeet : StepsMeet (Pool.step blankLib twoNewTrucks) (Indexable blankLib) schedule
      (.start fleetAndYard) := by
    refine stepsMeet_of_checkSteps (fun action p => match p.phase action.1 with
      | .appended _ w => w.effect.indexable blankLib
      | _ => true) ?_ rfl
    intro action p hcheck gate w hphase
    rw [hphase] at hcheck
    exact hcheck
  have hnew : ∀ i, SetsNew blankLib "fleet" "truck" (twoNewTrucks i) :=
    fun _ => ⟨_, rfl, rfl, rfl, rfl, rfl⟩
  have h := fun p hp result hdone => (@local_commands_linearizable blankLib 2 (fun _ => ⟨[], rfl⟩)
    fleetAndYard "fleet" twoNewTrucks hone schedule p hmeet hp result hdone).2 "truck" rfl rfl
    (by decide) hnew
  have hdone : ∀ p, runSteps (Pool.step blankLib twoNewTrucks) schedule (.start fleetAndYard) =
      some p → ∀ i, p.phase i = .done (.ok (.bool (i == 0))) := by
    intro p hp
    cases hp
    exact fun
      | 0 => rfl
      | 1 => rfl
  exact ⟨_, _, rfl, hdone _ rfl, h _ rfl _ (hdone _ rfl)⟩

end LatLng.Concurrent
