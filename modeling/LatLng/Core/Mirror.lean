import LatLng.Core.Deadlines
import LatLng.Core.FieldIndexes
import LatLng.Core.Sample
import LatLng.Lib.Schedule

/-! The indexes of a collection mirror its objects, after any sequence of its updates in which no
upsert fails. -/

namespace LatLng.Core

open Geo Geofence Index Std List ExtTreeMap

/-! ### The spatial index -/

def entryOf (lib : GeoLib) (id : String) (geo : GeoType) : Option IndexedEntry :=
  match geo.envelope lib with
  | .ok (some bounds) => some (.new lib id bounds)
  | _ => none

theorem entryOf_eq_some {lib : GeoLib} {id : String} {geo : GeoType} {entry : IndexedEntry} :
    entryOf lib id geo = some entry ↔
      ∃ bounds, geo.envelope lib = .ok (some bounds) ∧ .new lib id bounds = entry := by
  rw [entryOf]
  split
  next bounds h => simp [h]
  next h =>
    simp only [reduceCtorEq, false_iff]
    rintro ⟨bounds, hbounds, -⟩
    exact h bounds hbounds

/-- No NaN among the corners of the envelope and its centre. -/
def Numeric (lib : GeoLib) (geo : GeoType) : Prop :=
  ∀ bounds, geo.envelope lib = .ok (some bounds) →
    ∀ x ∈ [bounds.minLat, bounds.minLon, bounds.maxLat, bounds.maxLon, (bounds.center lib).1,
      (bounds.center lib).2], x.isNan = false

theorem sameAs_entryOf {lib : GeoLib} {id : String} {geo : GeoType} {entry : IndexedEntry}
    (hgeo : Numeric lib geo) (h : entryOf lib id geo = some entry) :
    entry.id = id ∧ entry.sameAs entry = true := by
  have hself : ∀ {x : F64}, x.isNan = false → x.numEq x = true := by
    intro x hx
    simp [F64.numEq, hx]
  obtain ⟨bounds, hbounds, rfl⟩ := entryOf_eq_some.1 h
  have hnum := hgeo bounds hbounds
  simp only [forall_mem_cons, not_mem_nil, false_imp_iff, implies_true, and_true] at hnum
  obtain ⟨h1, h2, h3, h4, h5, h6⟩ := hnum
  refine ⟨rfl, ?_⟩
  simp only [IndexedEntry.sameAs, IndexedEntry.new, lower, upper, BEq.rfl, Bool.true_and,
    Bool.and_eq_true, hself h5, hself h6]
  refine ⟨⟨⟨⟨⟨?_, ?_⟩, ?_⟩, ?_⟩, trivial⟩, trivial⟩ <;> split <;> exact hself (by assumption)

/-- The tree holds what the table by id holds, each entry once. -/
structure Exact (index : SpatialIndex) : Prop where
  distinct : (index.tree.map IndexedEntry.id).Nodup
  mem : ∀ entry, entry ∈ index.tree ↔ index.entriesById[entry.id]? = some entry
  keyed : ∀ id (entry : IndexedEntry), index.entriesById[id]? = some entry →
    entry.id = id ∧ entry.sameAs entry = true

structure Moved (index index' : SpatialIndex) (id : String) (entry : Option IndexedEntry) :
    Prop extends Exact index' where
  lookup : ∀ other, index'.entriesById[other]? =
    if id = other then entry else index.entriesById[other]?

variable {index : SpatialIndex} {lib : GeoLib} {geo : GeoType}

theorem Exact.remove (h : Exact index) (id : String) : Moved index (index.remove id) id none := by
  rw [SpatialIndex.remove]
  cases hid : index.entriesById[id]? with
  | none =>
    refine ⟨h, fun other => ?_⟩
    by_cases ho : id = other
    · rw [if_pos ho, ← ho, hid]
    · rw [if_neg ho]
  | some entry =>
    obtain ⟨hentry, hself⟩ := h.keyed id entry hid
    have hmem := (h.mem entry).2 (hentry.symm ▸ hid)
    obtain ⟨a, l, l', -, hsame, htree, herase⟩ := exists_of_eraseP hmem hself
    have ha : a.id = id := by
      simp only [IndexedEntry.sameAs, Bool.and_eq_true, beq_iff_eq] at hsame
      exact hsame.1.1.1.1.1.1.symm.trans hentry
    have hperm : index.tree.Perm (a :: (l ++ l')) := htree ▸ perm_middle
    obtain ⟨hfresh, hdistinct⟩ := nodup_cons.1 ((hperm.map IndexedEntry.id).nodup h.distinct)
    have hlookup : ∀ other, (index.entriesById.erase id)[other]? =
        if id = other then none else index.entriesById[other]? := by
      intro other
      by_cases ho : id = other <;> simp [getElem?_erase, ho]
    dsimp only
    rw [herase]
    refine ⟨⟨hdistinct, fun e => ?_, fun other e he => ?_⟩, hlookup⟩
    · rw [hlookup]
      by_cases ho : id = e.id
      · rw [if_pos ho]
        refine iff_of_false (fun he => hfresh ?_) nofun
        rw [ha, ho]
        exact mem_map_of_mem he
      · have hne : e ≠ a := by
          rintro rfl
          exact ho ha.symm
        rw [if_neg ho, ← h.mem, hperm.mem_iff, mem_cons, or_iff_right hne]
    · rw [hlookup] at he
      split at he
      · cases he
      · exact h.keyed other e he

theorem Exact.refreshed (h : Exact index) (id : String) {geo : Option GeoType}
    (hgeo : ∀ g, geo = some g → Numeric lib g) :
    Moved index (refreshed lib index id geo) id (geo.bind (entryOf lib id)) := by
  have hremoved := h.remove id
  cases geo with
  | none => exact hremoved
  | some geo =>
    have hgone : (index.remove id).entriesById[id]? = none := by
      rw [hremoved.lookup, if_pos rfl]
    have hagain : (index.remove id).remove id = index.remove id := by
      rw [SpatialIndex.remove, hgone]
    rw [Core.refreshed, Option.elim_some, SpatialIndex.insert, Option.bind_some]
    rw [entryOf]
    rcases henvelope : geo.envelope lib with e | _ | bounds
    · exact hremoved
    · exact hremoved
    · have hlookup : ∀ other, ((index.remove id).entriesById.insert id
          (IndexedEntry.new lib id bounds))[other]? =
            if id = other then some (.new lib id bounds) else index.entriesById[other]? := by
        intro other
        by_cases ho : id = other
        · simp [ho]
        · simp [ExtTreeMap.getElem?_insert, ho, hremoved.lookup]
      simp only [hagain, Except.toOption, Option.getD_some]
      refine ⟨⟨?_, fun e => ?_, fun other e he => ?_⟩, hlookup⟩
      · refine nodup_cons.2 ⟨fun hmem => ?_, hremoved.distinct⟩
        obtain ⟨e, he, hid⟩ := mem_map.1 hmem
        have hfound := (hremoved.mem e).1 he
        rw [hid] at hfound
        cases hfound.symm.trans hgone
      · rw [mem_cons, hremoved.mem, hlookup, hremoved.lookup]
        by_cases ho : id = e.id
        · simp [ho, eq_comm]
        · have hne : e ≠ .new lib id bounds := by
            rintro rfl
            exact ho rfl
          simp [ho, hne]
      · rw [hlookup] at he
        split at he
        next ho =>
          cases he
          have hentry : entryOf lib id geo = some _ := entryOf_eq_some.2 ⟨bounds, henvelope, rfl⟩
          exact ⟨ho, (sameAs_entryOf (hgeo geo rfl) hentry).2⟩
        · exact h.keyed other e he

/-! ### The field indexes -/

section Buckets

variable {κ : Type} {cmp : κ → κ → Ordering} [TransCmp cmp]

/-- No field without values and no value without ids. -/
def Tidy (indexes : ValueIndex κ cmp) : Prop :=
  Lib.Every (fun values => values ≠ ∅ ∧ Lib.Every (· ≠ ∅) values) indexes

variable {indexes : ValueIndex κ cmp} (h : Tidy indexes) (field : String) (value : κ) (id : String)

include h

theorem Tidy.addIndexedId : Tidy (addIndexedId indexes field value id) := by
  refine h.insert field ⟨insert_ne_empty, ?_⟩
  refine .insert ?_ value ExtTreeSet.insert_ne_empty
  cases hf : indexes[field]? with
  | none => simp [Lib.Every]
  | some values => exact (h field values hf).2

theorem Tidy.removeIndexedId : Tidy (removeIndexedId indexes field value id) := by
  unfold Core.removeIndexedId
  cases hf : indexes[field]? with
  | none => exact h
  | some values =>
    change Tidy (if (withoutId values value id).isEmpty then indexes.erase field
      else indexes.insert field (withoutId values value id))
    split
    · exact h.erase field
    next hne =>
      have hold := (h field values hf).2
      refine h.insert field ⟨mt isEmpty_iff.2 hne, ?_⟩
      unfold withoutId
      cases values[value]? with
      | none => exact hold
      | some old =>
        dsimp only
        split
        · exact hold.erase value
        next hrest => exact hold.insert value (mt ExtTreeSet.isEmpty_iff.2 hrest)

end Buckets

namespace FieldIndexes

variable {indexes : FieldIndexes}

def Tidied (indexes : FieldIndexes) : Prop := Tidy indexes.numeric ∧ Tidy indexes.text

theorem Tidied.insertObject (h : indexes.Tidied) (object : Object) :
    (indexes.insertObject object).Tidied := by
  rw [insertObject_eq]
  refine foldlRecOn _ _ h fun indexes h e _ => ?_
  cases indexKey e.2 with
  | number n => exact ⟨h.1.addIndexedId _ _ _, h.2⟩
  | text s => exact ⟨h.1, h.2.addIndexedId _ _ _⟩

theorem Tidied.removeObject (h : indexes.Tidied) (object : Object) :
    (indexes.removeObject object).Tidied := by
  rw [removeObject_eq]
  refine foldlRecOn _ _ h fun indexes h e _ => ?_
  cases indexKey e.2 with
  | number n => exact ⟨h.1.removeIndexedId _ _ _, h.2⟩
  | text s => exact ⟨h.1, h.2.removeIndexedId _ _ _⟩

theorem Tidied.replace (h : indexes.Tidied) (old new : Option Object) :
    (indexes.replace old new).Tidied := by
  have hdropped : (old.elim indexes indexes.removeObject).Tidied := by
    cases old with
    | none => exact h
    | some object => exact h.removeObject object
  cases new with
  | none => exact hdropped
  | some object => exact hdropped.insertObject object

end FieldIndexes

/-! ### All indexes -/

namespace Collection

structure Mirrored (lib : GeoLib) (c : Collection) : Prop extends c.Timed where
  spatial : Exact c.spatialIndex
  placed : ∀ id, c.spatialIndex.entriesById[id]? =
    (c.objects[id]?.map Object.geo).bind (entryOf lib id)
  numeric : ∀ (id : String) geo, c.objects[id]?.map Object.geo = some geo → Numeric lib geo
  tidy : c.fieldIndexes.Tidied
  fields : ∀ field key id, c.fieldIndexes.Lists field key id ↔
    ∃ object, c.objects[id]? = some object ∧ FieldIndexes.Holds object field key

variable {c c' : Collection} {id : String}

theorem Mirrored.change (h : c.Mirrored lib) (hc : c.Reindexes lib id c')
    (hgeo : ∀ geo, c'.objects[id]?.map Object.geo = some geo → Numeric lib geo) :
    c'.Mirrored lib := by
  have hmoved : Moved c.spatialIndex c'.spatialIndex id
      ((c'.objects[id]?.map Object.geo).bind (entryOf lib id)) := by
    rcases hc.spatial with ⟨hsame, hkept⟩ | hrefreshed
    · rw [hsame, hkept]
      refine ⟨h.spatial, fun other => ?_⟩
      split
      next ho => rw [← ho, h.placed]
      next => rfl
    · rw [hrefreshed]
      exact h.spatial.refreshed id hgeo
  refine { h.toTimed.change hc.toChanges with
    spatial := hmoved.toExact, placed := fun other => ?_, numeric := fun other => ?_
    tidy := ?_, fields := fun field key other => ?_ }
  · rw [hmoved.lookup]
    split
    next ho => rw [ho]
    next ho => rw [hc.others other ho, h.placed]
  · by_cases ho : id = other
    · rw [← ho]
      exact hgeo
    · rw [hc.others other ho]
      exact h.numeric other
  · rcases hc.fields with ⟨hsame, -⟩ | hreplaced
    · rw [hsame]
      exact h.tidy
    · rw [hreplaced]
      exact h.tidy.replace _ _
  · rcases hc.fields with ⟨hsame, hfields⟩ | hreplaced
    · rw [hsame, h.fields]
      by_cases ho : id = other
      · subst ho
        cases hold : c.objects[id]? <;> cases hnew : c'.objects[id]? <;>
          simp_all [FieldIndexes.Holds]
      · rw [hc.others other ho]
    · rw [hreplaced, FieldIndexes.lists_replace (h.ids id) hc.ids, h.fields]
      by_cases ho : id = other
      · subst ho
        simp
      · simp [ho, hc.others other ho]

end Collection

inductive CollectionOp where
  | upsert (object : Object)
  | remove (id : String)
  | insertFields (id : String) (fields : List FieldEntry)
  | setExpiry (id : String) (expiresAt : Option Nat)
  | replaceGeo (id : String) (geo : GeoType)
  /-- An edit in place on replay, and the refresh of the index that follows it. -/
  | replayGeo (id : String) (geo : GeoType)
  | reindexSpatial (id : String)

def CollectionOp.geo? : CollectionOp → Option GeoType
  | .upsert object => some object.geo
  | .replaceGeo _ geo => some geo
  | .replayGeo _ geo => some geo
  | _ => none

namespace Collection

/-- An upsert that fails ends the run; a geometry that cannot be indexed does not. -/
def step (lib : FenceLib) (op : CollectionOp) (c : Collection) : Option Collection :=
  match op with
  | .upsert object =>
    match c.upsert lib object with
    | (.ok (), c) => some c
    | (.error _, _) => none
  | .remove id => some (c.remove id).2
  | .insertFields id fields => some (c.insertFields id fields).2
  | .setExpiry id expiresAt => some (c.setExpiry id expiresAt).2
  | .replaceGeo id geo => some (c.replaceGeo lib id geo).2
  | .replayGeo id geo =>
    match c.objects[id]? with
    | some object => some ((c.setGeo id object geo).reindexSpatial lib id)
    | none => some c
  | .reindexSpatial id => some (c.reindexSpatial lib id)

variable {lib : FenceLib} {c c' : Collection}

theorem reindexes_step (h : c.Keyed) {op : CollectionOp} (hstep : c.step lib op = some c') :
    ∃ id, c.Reindexes lib.toGeoLib id c' ∧ ∀ geo, c'.objects[id]?.map Object.geo = some geo →
      c.objects[id]?.map Object.geo = some geo ∨ op.geo? = some geo := by
  cases op with
  | upsert object =>
    rcases upsert_cases lib c object with ⟨-, hok, hobjects⟩ | ⟨-, e, herror, -⟩
    · refine ⟨object.id, ?_⟩
      have hreindexes := upsert_reindexes hok
      rw [step, ← (c.upsert lib object).eta, hok] at hstep
      cases hstep
      refine ⟨hreindexes, fun geo hgeo => .inr ?_⟩
      rw [hobjects, getElem?_insert_self] at hgeo
      exact hgeo
    · rw [step, ← (c.upsert lib object).eta, herror] at hstep
      cases hstep
  | remove id =>
    cases hstep
    refine ⟨id, remove_reindexes h id, fun geo hgeo => ?_⟩
    simp at hgeo
  | insertFields id fields =>
    cases hstep
    refine ⟨id, insertFields_reindexes h id fields, fun geo hgeo => .inl ?_⟩
    simpa [Option.map_map, Function.comp_def] using hgeo
  | setExpiry id expiresAt =>
    cases hstep
    refine ⟨id, setExpiry_reindexes h id expiresAt, fun geo hgeo => .inl ?_⟩
    simpa [Option.map_map, Function.comp_def] using hgeo
  | replaceGeo id new =>
    cases hstep
    refine ⟨id, replaceGeo_reindexes h id new, fun geo hgeo => .inr ?_⟩
    rw [objects_replaceGeo, getElem?_modify_self] at hgeo
    cases ho : c.objects[id]? with
    | none => rw [ho] at hgeo; cases hgeo
    | some object => rw [ho] at hgeo; exact hgeo
  | replayGeo id new =>
    rw [step] at hstep
    cases ho : c.objects[id]? with
    | none =>
      rw [ho] at hstep
      cases hstep
      exact ⟨id, .refl h id, fun geo hgeo => .inl (ho ▸ hgeo)⟩
    | some object =>
      rw [ho] at hstep
      cases hstep
      refine ⟨id, replayGeo_reindexes h ho new, fun geo hgeo => .inr ?_⟩
      rw [objects_reindexSpatial, setGeo, getElem?_insert_self] at hgeo
      exact hgeo
  | reindexSpatial id =>
    cases hstep
    refine ⟨id, reindexSpatial_reindexes h id, fun geo hgeo => .inl ?_⟩
    rwa [objects_reindexSpatial] at hgeo

theorem Mirrored.step (h : c.Mirrored lib.toGeoLib) {op : CollectionOp}
    (hgeo : ∀ geo, op.geo? = some geo → Numeric lib.toGeoLib geo)
    (hstep : c.step lib op = some c') : c'.Mirrored lib.toGeoLib := by
  obtain ⟨id, hreindexes, hnew⟩ := reindexes_step h.toKeyed hstep
  exact h.change hreindexes fun geo hg => (hnew geo hg).elim (h.numeric id geo) (hgeo geo)

theorem mirrored_new (name : String) : ({ name } : Collection).Mirrored lib.toGeoLib := by
  have htidy : ∀ {κ : Type} {cmp : κ → κ → Ordering} [TransCmp cmp], Tidy (∅ : ValueIndex κ cmp) := by
    intro κ cmp _ field values hv
    simp at hv
  refine ⟨⟨keyed_new name, fun deadline id hd => ?_⟩, ⟨nodup_nil, fun entry => ?_,
    fun id entry he => ?_⟩, fun id => ?_, fun id geo hg => ?_, ⟨htidy, htidy⟩, fun field key id => ?_⟩
  · simp [deadlineOf] at hd
  · simp [SpatialIndex.new]
  · simp [SpatialIndex.new] at he
  · simp [SpatialIndex.new]
  · simp at hg
  · cases key <;> simp [FieldIndexes.Lists, idsAt]

theorem mirrored_run {name : String} {ops : List CollectionOp}
    (hgeo : ∀ op ∈ ops, ∀ geo, op.geo? = some geo → Numeric lib.toGeoLib geo)
    (hrun : Lib.runSteps (step lib) ops { name } = some c) : c.Mirrored lib.toGeoLib :=
  Lib.runSteps_invariant (fun op _ _ h hop hstep => h.step (hgeo op hop.1) hstep)
    (mirrored_new name) ((Lib.stepsMeet_of_forall (fun _ _ => trivial) ops _).mem fun _ hop => hop)
    hrun

theorem Mirrored.mem_tree {lib : GeoLib} (h : c.Mirrored lib) {entry : IndexedEntry} :
    entry ∈ c.spatialIndex.tree ↔ ∃ object bounds, c.objects[entry.id]? = some object ∧
      object.geo.envelope lib = .ok (some bounds) ∧ entry = .new lib entry.id bounds := by
  rw [h.spatial.mem, h.placed, Option.bind_map, Option.bind_eq_some_iff]
  refine exists_congr fun object => ?_
  rw [Function.comp, entryOf_eq_some]
  simp only [exists_and_left, eq_comm]

/-- The indexes hold what the objects say, and hold it once. -/
theorem indexes_mirror_objects {name : String} {ops : List CollectionOp}
    (hgeo : ∀ op ∈ ops, ∀ geo, op.geo? = some geo → Numeric lib.toGeoLib geo)
    (hrun : Lib.runSteps (step lib) ops { name } = some c) :
    (c.spatialIndex.tree.map IndexedEntry.id).Nodup ∧
    (∀ entry, entry ∈ c.spatialIndex.tree ↔ ∃ object bounds, c.objects[entry.id]? = some object ∧
      object.geo.envelope lib.toGeoLib = .ok (some bounds) ∧
      entry = .new lib.toGeoLib entry.id bounds) ∧
    (∀ id entry, c.spatialIndex.entriesById[id]? = some entry ↔
      entry ∈ c.spatialIndex.tree ∧ entry.id = id) ∧
    (∀ field key id, c.fieldIndexes.Lists field key id ↔
      ∃ object, c.objects[id]? = some object ∧ FieldIndexes.Holds object field key) ∧
    Tidy c.fieldIndexes.numeric ∧ Tidy c.fieldIndexes.text ∧
    ∀ deadline id, (deadline, id) ∈ c.expirations ↔
      ∃ object, c.objects[id]? = some object ∧ object.expiresAt = some deadline := by
  have h := mirrored_run hgeo hrun
  refine ⟨h.spatial.distinct, fun entry => h.mem_tree, fun id entry => ?_, h.fields, h.tidy.1,
    h.tidy.2, fun deadline id => ?_⟩
  · rw [h.spatial.mem]
    constructor
    · intro he
      have hid := (h.spatial.keyed id entry he).1
      exact ⟨hid ▸ he, hid⟩
    · rintro ⟨he, rfl⟩
      exact he
  · rw [← Option.bind_eq_some_iff]
    exact ⟨h.deadlines deadline id, h.listed deadline id⟩

def lostPlace : List CollectionOp := [
  .upsert { id := "crane", geo := .point F64.zero F64.zero none, fields := ∅, expiresAt := none },
  .setExpiry "crane" (some 5), .replaceGeo "crane" (.hash "!")]

/-- The last step fails after the geometry was set: the place is gone, the deadline is not. -/
theorem lost_place_keeps_deadline :
    (∀ op ∈ lostPlace, ∀ geo, op.geo? = some geo → Numeric Sample.blankLib.toGeoLib geo) ∧
    ∃ c, Lib.runSteps (step Sample.blankLib.toFenceLib) lostPlace { name := "yard" } = some c ∧
      c.spatialIndex.tree = [] ∧ (5, "crane") ∈ c.expirations := by
  have hgeo : ∀ op ∈ lostPlace, ∀ geo, op.geo? = some geo →
      Numeric Sample.blankLib.toGeoLib geo := by
    intro op hop geo hg
    simp only [lostPlace, mem_cons, not_mem_nil, or_false] at hop
    rcases hop with rfl | rfl | rfl <;> cases hg
    · intro bounds hb
      cases hb
      decide
    · exact nofun
  refine ⟨hgeo, _, rfl, rfl, ?_⟩
  have h := @indexes_mirror_objects _ _ "yard" _ hgeo rfl
  exact (h.2.2.2.2.2.2 5 "crane").2 ⟨_, rfl, rfl⟩

end Collection

end LatLng.Core
