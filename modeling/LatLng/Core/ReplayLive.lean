import LatLng.Core.Commit
import LatLng.Core.Sample

/-! Replaying the log of a database that has served commands, expiries and flushes rebuilds
its live state, up to objects that were already past their deadline. -/

namespace LatLng.Core

open Geo Geofence Storage List

variable {lib : Lib}

theorem Intends.timeless {v : View} {aim : Aim} {commands : List Command} {effect : Effect}
    (h : Intends lib v aim commands effect) (u : View) (now now' : Nat) :
    commands.foldl (View.apply lib now) u = commands.foldl (View.apply lib now') u := by
  cases h with
  | jset hget hgeo hedit haim | jdel hget hgeo hedit haim =>
    split <;> simp only [foldl_cons, foldl_nil, View.apply]
  | _ => simp only [foldl_cons, foldl_nil, View.apply]

theorem exists_ok_of_map {ε α β : Type} {x : Except ε α} {f : α → β} {b : β}
    (h : x.map f = .ok b) : ∃ a, x = .ok a := by
  cases x with
  | error e => cases h
  | ok a => exact ⟨a, rfl⟩

variable (lib) in
structure LiveInv (now : Nat) (db : Db) : Prop where
  stores : db.storage.storesCommandLog = true
  keyed : db.Keyed
  log : ∃ full, Replays lib db.storage.entries full ∧ Trimmed now full db.view

namespace LiveInv

variable {now : Nat} {db : Db} (h : LiveInv lib now db)

include h

theorem mono {later : Nat} (hle : now ≤ later) : LiveInv lib later db := by
  obtain ⟨full, hreplays, htrim⟩ := h.log
  exact ⟨h.stores, h.keyed, full, hreplays, htrim.mono hle⟩

theorem unlogged {db' : Db} (hun : db.Unlogged db') : LiveInv lib now db' := by
  refine ⟨hun.log.stores.trans h.stores, by rw [hun.store]; exact h.keyed, ?_⟩
  rw [hun.store, hun.log.entries]
  exact h.log

theorem finish (ctx : Ctx) {plan : Plan}
    {aim : Aim} (hread : plan.Readable lib db) (hplan : plan.Intended lib db.view aim)
    (hres : aim = .plain ∨ ∀ e, (db.finish lib ctx plan).1 ≠ .error (.index e)) :
    LiveInv lib now (db.finish lib ctx plan).2 := by
  refine hplan.keeps hres h (fun _ => h.unlogged) fun w db' hwrite hw hidx hp => ?_
  obtain ⟨-, -, hview⟩ := hw.ok hidx 0
  obtain ⟨full, hreplays, htrim⟩ := h.log
  obtain ⟨hreplays', hstores⟩ := hreplays.persisted h.stores hp (hread w hwrite)
    (hw.intends.replayable hidx) fun now => hw.intends.timeless full now 0
  refine ⟨hstores, h.keyed.write lib w, _, hreplays', ?_⟩
  rw [hview]
  exact htrim.applyAll (hw.intends.appliesAll 0)

variable {ctx : Ctx}

omit h in
theorem delete (hcodec : lib.codec.Lossless) (db : Db) (collection id : String)
    (h : LiveInv lib now db) : Ends (LiveInv lib now) (LiveInv lib now)
      (db.finish lib ctx (db.delExclusive lib ctx collection id)) := by
  have hplan := db.delExclusive_intended lib ctx collection id
  have hfinish := h.finish ctx (.of_lossless hcodec _) hplan (.inl rfl)
  exact .of_snd hfinish

theorem gc (hle : now ≤ ctx.nowMs) : LiveInv lib ctx.nowMs (db.gc ctx) := by
  obtain ⟨full, hreplays, htrim⟩ := h.log
  exact ⟨h.stores, h.keyed.gcCollections ctx.nowMs, full, hreplays,
    (htrim.mono hle).trans (h.keyed.trimmed_gc ctx.nowMs)⟩

theorem flushdb
    (hok : (db.flushdb lib ctx).1 = .ok ()) : LiveInv lib now (db.flushdb lib ctx).2 := by
  rcases db.flushdb_steps lib ctx with ⟨e, he, -⟩ | ⟨db', hp, -, hr⟩
  · cases he.symm.trans hok
  have hstores : db'.storage.storesCommandLog = true := by
    rcases hp with ⟨-, hun⟩ | ⟨-, entries, hlogged, -⟩
    · exact hun.log.stores.trans h.stores
    · exact hlogged.stores.trans h.stores
  rw [hr] at hok ⊢
  rcases db'.storage.snapshot_cases [] with ⟨e, he, -⟩ | ⟨-, hentries, hsame, -⟩
  · rw [he] at hok
    cases hok
  · refine ⟨hsame.trans hstores, db'.keyed_clear, {}, ?_, ?_⟩
    · rw [hentries]
      exact Replays.nil
    · exact Trimmed.refl now _

end LiveInv

def Call.isLive : Call → Bool
  | .request _ => true
  | .pdel _ _ => true
  | .expireDue _ _ => true
  | .gc => true
  | .flushdb => true
  | _ => false

theorem LiveInv.call (hcodec : lib.codec.Lossless) {now : Nat} {db : Db}
    (h : LiveInv lib now db) {ctx : Ctx} (hle : now ≤ ctx.nowMs) {call : Call}
    (hlive : call.isLive) (hok : (db.call lib ctx call).1 = .ok ()) :
    LiveInv lib ctx.nowMs (db.call lib ctx call).2 := by
  have hnow := h.mono hle
  cases call with
  | request request =>
    obtain ⟨answer, hanswer⟩ := exists_ok_of_map hok
    refine hnow.finish ctx (.of_lossless hcodec _) (request.plan_intended lib db ctx)
      (.inr fun e he => ?_)
    cases he.symm.trans hanswer
  | pdel collection pattern =>
    exact (Db.pdel_ends (fun db => delete hcodec db collection) (fun _ h => h) hnow pattern).same
  | expireDue nowMs max =>
    refine (Db.expireDue_ends (delete hcodec) ?_ hnow nowMs max).same
    exact fun db total h => ⟨h.stores, h.keyed, h.log⟩
  | gc => exact h.gc hle
  | flushdb => exact hnow.flushdb hok
  | _ => cases hlive

def Db.Succeeds (lib : Lib) (now : Nat) (db : Db) : List (Ctx × Call) → Prop
  | [] => True
  | (ctx, call) :: calls =>
    now ≤ ctx.nowMs ∧ call.isLive = true ∧ (db.call lib ctx call).1 = .ok () ∧
      (db.call lib ctx call).2.Succeeds lib ctx.nowMs calls

theorem LiveInv.run (hcodec : lib.codec.Lossless) {now later : Nat} {db : Db}
    {calls : List (Ctx × Call)} (h : LiveInv lib now db) (hrun : db.Succeeds lib now calls)
    (hnow : now ≤ later) (hlater : ∀ step ∈ calls, step.1.nowMs ≤ later) :
    LiveInv lib later (db.run lib calls) := by
  induction calls generalizing now db with
  | nil => exact h.mono hnow
  | cons step calls ih =>
    obtain ⟨hle, hlive, hok, hrest⟩ := hrun
    exact ih (h.call hcodec hle hlive hok) hrest (hlater _ mem_cons_self)
      fun s hs => hlater s (mem_cons_of_mem _ hs)

theorem LiveInv.build {ctx : Ctx} {storage : LogStore} {config : Config} {db : Db}
    (hempty : storage.entries = []) (hstores : storage.storesCommandLog)
    (hbuild : (build lib ctx storage config).1 = .ok db) : LiveInv lib ctx.nowMs db := by
  obtain ⟨hstorage, hkeyed, hview, -⟩ := build_empty hempty hbuild
  have hsame := storage.sameLog_fault
  rw [← hstorage] at hsame
  refine ⟨hsame.stores.trans hstores, hkeyed, {}, ?_, ?_⟩
  · rw [hsame.entries, hempty]
    exact Replays.nil
  · rw [hview]
    exact Trimmed.refl ctx.nowMs {}

/-- Replaying the log gives the live collections and definitions. What the live state holds
is rebuilt as it is, and anything more is past its deadline. -/
theorem replayLog_rebuilds_live (hcodec : lib.codec.Lossless) {ctx₀ : Ctx} {storage : LogStore}
    {config : Config} {db₀ : Db} {calls : List (Ctx × Call)} {later : Nat}
    (hempty : storage.entries = []) (hstores : storage.storesCommandLog)
    (hbuild : (build lib ctx₀ storage config).1 = .ok db₀)
    (hrun : db₀.Succeeds lib ctx₀.nowMs calls) (hnow : ctx₀.nowMs ≤ later)
    (hlater : ∀ step ∈ calls, step.1.nowMs ≤ later) :
    ∃ replayed, replayLog lib later (db₀.run lib calls).storage.entries = .ok replayed ∧
      (∀ c : String, c ∈ replayed.collections ↔ c ∈ (db₀.run lib calls).collections) ∧
      replayed.view.channels = (db₀.run lib calls).view.channels ∧
      replayed.view.hooks = (db₀.run lib calls).view.hooks ∧
      (∀ c id object, (db₀.run lib calls).view.get c id = some object →
        replayed.view.get c id = some object) ∧
      (∀ c id object, replayed.view.get c id = some object →
        (db₀.run lib calls).view.get c id = none → isExpired later object = true) := by
  obtain ⟨-, -, full, hreplays, htrim⟩ :=
    (LiveInv.build hempty hstores hbuild).run hcodec hrun hnow hlater
  obtain ⟨replayed, hreplay, rfl⟩ := hreplays.replayLog later
  have hnames : ∀ (s : Store) (c : String), s.view.collections[c]?.isSome = true ↔
      c ∈ s.collections := by
    intro s c
    rw [Store.collections_view, Option.isSome_map, Std.ExtTreeMap.mem_iff_isSome_getElem?]
  refine ⟨replayed, hreplay, ?_, htrim.channels.symm, htrim.hooks.symm, ?_, ?_⟩
  · intro c
    rw [← hnames, ← hnames, htrim.names c]
  · intro c id object hget
    exact htrim.get_of_get hget
  · intro c id object hfull hlive
    rcases htrim.objects c id with heq | ⟨-, object', hfull', hexp⟩
    · rw [hlive, hfull] at heq
      cases heq
    · rw [hfull] at hfull'
      cases hfull'
      exact hexp

open Sample in
theorem replayLog_rebuilds_idle_truck :
    ∃ replayed, replayLog sampleLib 2000
      ((Db.run sampleLib { storage := {} }
        [(sampleCtx, .request (.createCollection "fleet")),
          (sampleCtx, .request (setIdle "fleet" "truck"))]).storage.entries) = .ok replayed ∧
      replayed.view.get "fleet" "truck" =
        some { id := "truck", geo := .string "idle", fields := ∅, expiresAt := none } := by
  obtain ⟨replayed, hreplay, -, -, -, hsame, -⟩ :=
    @replayLog_rebuilds_live sampleLib sample_lossless sampleCtx {} {} { storage := {} }
      [(sampleCtx, .request (.createCollection "fleet")),
        (sampleCtx, .request (setIdle "fleet" "truck"))] 2000 rfl rfl rfl
      ⟨le_rfl, rfl, rfl, le_rfl, rfl, rfl, trivial⟩ (by decide) (by decide)
  exact ⟨replayed, hreplay, hsame _ _ _ rfl⟩

end LatLng.Core
