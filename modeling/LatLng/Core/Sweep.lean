import LatLng.Core.Admissible
import LatLng.Core.Deadlines
import LatLng.Core.Sample
import LatLng.Lib.Sorting

/-! The expiry sweep. What it deletes is the beginning of one list: the due objects of all
collections, collection after collection and oldest first within each. -/

namespace LatLng.Core

open Geo Geofence Storage Std ExtTreeMap List Option

/-! ### The due objects of a collection -/

namespace Collection

def dueIds (c : Collection) (now : Nat) : List String :=
  (c.expirations.toList.takeWhile fun e => e.1 ≤ now).map Prod.snd

theorem dueExpirations_eq (c : Collection) (now max : Nat) :
    c.dueExpirations now max = (c.dueIds now).take max := by
  rw [dueExpirations, dueIds, map_take]

theorem expirations_ordered (c : Collection) :
    c.expirations.toList.Pairwise fun a b => a.1 ≤ b.1 := by
  refine ExtTreeSet.ordered_toList.imp fun {a b} hlt => ?_
  rcases Ordering.then_eq_lt.1 hlt with hlt | ⟨heq, -⟩
  · exact (Nat.compare_eq_lt.1 hlt).le
  · exact (Nat.compare_eq_eq.1 heq).le

theorem dueIds_eq (c : Collection) (now : Nat) :
    c.dueIds now = (c.expirations.toList.filter fun e => e.1 ≤ now).map Prod.snd := by
  rw [dueIds, Lib.takeWhile_eq_filter c.expirations_ordered]
  intro a b hab hb
  exact decide_eq_true (hab.trans (of_decide_eq_true hb))

variable {c : Collection} {now : Nat}

theorem Keyed.due (h : c.Keyed) {e : Nat × String}
    (he : e ∈ c.expirations.toList.filter fun e => e.1 ≤ now) :
    deadlineOf c.objects e.2 = some e.1 ∧ e.1 ≤ now := by
  obtain ⟨hmem, hle⟩ := mem_filter.1 he
  exact ⟨h.deadlines e.1 e.2 (ExtTreeSet.mem_toList.1 hmem), of_decide_eq_true hle⟩

theorem Timed.mem_dueIds (h : c.Timed) {id : String} :
    id ∈ c.dueIds now ↔ ∃ object, c.objects[id]? = some object ∧ isExpired now object = true := by
  rw [dueIds_eq]
  constructor
  · intro hid
    obtain ⟨e, he, rfl⟩ := mem_map.1 hid
    obtain ⟨hdeadline, hle⟩ := h.toKeyed.due he
    obtain ⟨object, ho, hexpires⟩ := bind_eq_some_iff.1 hdeadline
    exact ⟨object, ho, by simp [isExpired, hexpires, hle]⟩
  · rintro ⟨object, ho, hexpired⟩
    unfold isExpired at hexpired
    split at hexpired
    next deadline hdeadline =>
      have hlisted : (deadline, id) ∈ c.expirations :=
        h.listed deadline id (by rw [deadlineOf, ho, bind_some, hdeadline])
      exact mem_map.2 ⟨(deadline, id),
        mem_filter.2 ⟨ExtTreeSet.mem_toList.2 hlisted, hexpired⟩, rfl⟩
    next => cases hexpired

theorem Keyed.dueIds_ordered (h : c.Keyed) : (c.dueIds now).Pairwise fun a b =>
    a ≠ b ∧ ∀ d d', deadlineOf c.objects a = some d → deadlineOf c.objects b = some d' → d ≤ d' := by
  have hdistinct := (@ExtTreeSet.distinct_toList _ _ c.expirations _).and
    c.expirations_ordered
  rw [dueIds_eq, pairwise_map]
  refine (hdistinct.filter _).imp_of_mem fun {a b} ha hb hab => ?_
  obtain ⟨ha', -⟩ := h.due ha
  obtain ⟨hb', -⟩ := h.due hb
  refine ⟨?_, ?_⟩
  · intro hid
    -- one id has one deadline
    rw [hid, hb'] at ha'
    have hsame : a = b := Prod.ext (some.inj ha').symm hid
    rw [hsame] at hab
    exact hab.1 ReflCmp.compare_self
  · intro d d' hd hd'
    cases ha'.symm.trans hd
    cases hb'.symm.trans hd'
    exact hab.2

theorem Keyed.nodup_dueIds (h : c.Keyed) : (c.dueIds now).Nodup :=
  h.dueIds_ordered.imp fun hab => hab.1

def dueCount (c : Collection) (now : Nat) : Nat :=
  (c.objects.toList.filter fun o => isExpired now o.2).length

theorem Timed.length_dueIds (h : c.Timed) : (c.dueIds now).length = c.dueCount now := by
  have hnodup : ((c.objects.toList.filter fun o => isExpired now o.2).map Prod.fst).Nodup := by
    refine List.Nodup.sublist (filter_sublist.map _) ?_
    rw [map_fst_toList_eq_keys]
    exact nodup_keys
  have hperm : (c.dueIds now).Perm
      ((c.objects.toList.filter fun o => isExpired now o.2).map Prod.fst) := by
    rw [perm_ext_iff_of_nodup h.toKeyed.nodup_dueIds hnodup]
    intro id
    rw [h.mem_dueIds]
    simp [mem_filter, mem_toList_iff_getElem?_eq_some]
  rw [hperm.length_eq, length_map, dueCount]

end Collection

/-! ### One delete -/

variable {lib : Lib}

variable (lib) in
def EntriesOf (added : List StorageEntry) (records : List LogRecord) : Prop :=
  records.map lib.codec.toJson = added.map fun entry => .ok entry.command

theorem entriesOf_encode {nowNs : Nat} {records : List LogRecord} {sequences : List Nat}
    {entries : List StorageEntry} (hlen : sequences.length = records.length)
    (h : encodeEntriesForSequences lib nowNs records sequences = .ok entries) :
    EntriesOf lib entries records := by
  have hjson := toJson_encodeEntries hlen h
  clear hlen h
  induction hjson with
  | nil => rfl
  | cons hjson _ ih => rw [EntriesOf, map_cons, map_cons, ih, hjson]

namespace Db

variable (lib) in
def Logs (db : Db) (commands : List Command) (db' : Db) : Prop :=
  ∃ added records, db'.storage.entries = db.storage.entries ++ added ∧
    EntriesOf lib added records ∧ records.filterMap LogRecord.command? = commands

theorem Logs.append {db db' db'' : Db} {commands commands' : List Command}
    (h : db.Logs lib commands db') (h' : db'.Logs lib commands' db'') :
    db.Logs lib (commands ++ commands') db'' := by
  obtain ⟨added, records, hlog, hentries, hcommands⟩ := h
  obtain ⟨added', records', hlog', hentries', hcommands'⟩ := h'
  refine ⟨added ++ added', records ++ records', ?_, ?_, ?_⟩
  · rw [hlog', hlog, append_assoc]
  · rw [EntriesOf, map_append, map_append, hentries, hentries']
  · rw [filterMap_append, hcommands, hcommands']

variable (lib) in
structure Deleted (db : Db) (collection id : String) (db' : Db) : Prop where
  collections : db'.collections =
    db.collections.modify collection fun v => v.bump (v.collection.remove id).2
  config : db'.config = db.config
  stores : db'.storage.storesCommandLog = db.storage.storesCommandLog
  logs : db.storage.storesCommandLog = true → db.Logs lib [.del collection id] db'

variable {db db' : Db} {ctx : Ctx} {collection id : String}

theorem apply_remove {w : Write} (hw : w.effect = .mutate collection (.remove id))
    (hstored : (db.getObject collection id).isSome) :
    ((w.apply lib db.toStore).1 = w.reply (.bool true)) ∧
      (w.apply lib db.toStore).2.collections =
        db.collections.modify collection fun v => v.bump (v.collection.remove id).2 := by
  obtain ⟨object, hobject⟩ := isSome_iff_exists.1 hstored
  obtain ⟨cell, hcell, hid⟩ := bind_eq_some_iff.1 hobject
  have heffect : w.effect.apply lib db.toStore = (.ok (.bool true),
      db.toStore.setCell collection (cell.bump (cell.collection.remove id).2)) := by
    rw [hw, Effect.apply, Store.ensureCollectionCell, hcell, getD_some, Mutation.apply]
    have hremove : (cell.collection.remove id).1 = some object := by
      rw [Collection.remove]
      simp only [show cell.collection.objects[id]? = some object from hid]
    rcases hr : cell.collection.remove id with ⟨removed, c⟩
    rw [hr] at hremove
    cases hremove
    rfl
  obtain ⟨hreply, hcollections, -⟩ :=
    Write.apply_of_ok (congrArg Prod.fst heffect)
  refine ⟨hreply, ?_⟩
  rw [hcollections, heffect]
  exact Lib.insert_eq_modify hcell fun v => v.bump (v.collection.remove id).2

theorem delExclusive_stored (hwritable : db.config.readOnly = false)
    (hstored : (db.getObject collection id).isSome) :
    ∃ w webhooks, db.delExclusive lib ctx collection id = .write w ∧
      w.batch = .command (.del collection id) webhooks ∧
      w.effect = .mutate collection (.remove id) ∧ w.reply = .ok := by
  obtain ⟨before, hbefore⟩ := isSome_iff_exists.1 hstored
  rw [delExclusive, db.ensureWritable_ok_iff.2 hwritable, hbefore]
  dsimp only
  rw [planDel, planEvent]
  obtain ⟨webhooks, hwebhooks⟩ := db.webhookRecords_planMutation lib ctx
    { command := .del, collection, id, before := some before, after := none
      timestampNs := ctx.nowNs }
  rw [hwebhooks]
  exact ⟨_, webhooks, rfl, rfl, rfl, rfl⟩

theorem deleted_of_ok (hwritable : db.config.readOnly = false)
    (hstored : (db.getObject collection id).isSome) {answer : Answer}
    (h : db.finish lib ctx (db.delExclusive lib ctx collection id) = (.ok answer, db')) :
    answer = .bool true ∧ db.Deleted lib collection id db' := by
  obtain ⟨w, webhooks, hplan, hbatch, heffect, hreply⟩ :=
    @delExclusive_stored lib db ctx collection id hwritable hstored
  obtain ⟨hanswer, hcollections⟩ := @apply_remove lib db collection id w heffect hstored
  rw [hplan, finish] at h
  rcases db.commit_cases lib ctx w with ⟨e, he, -⟩ | ⟨db₁, hp, hcommit⟩
  · rw [h] at he
    cases he
  rw [hcommit, hanswer, hreply] at h
  cases h
  refine ⟨rfl, ?_⟩
  rcases hp with ⟨hno, hun⟩ | ⟨-, entries, hlogged, hencode⟩
  · refine ⟨hcollections, hun.config, hun.log.stores, ?_⟩
    intro hstores
    rw [hno] at hstores
    cases hstores
  · refine ⟨hcollections, hlogged.config, hlogged.stores, fun _ => ?_⟩
    have hencoded := entriesOf_encode (by rw [length_range', w.batch.length_numbered]) hencode
    refine ⟨entries, _, hlogged.log, hencoded, ?_⟩
    rw [w.batch.commands_numbered, hbatch]
    rfl

/-! ### Deletes one after the other -/

variable (lib) in
inductive Deletes : Db → List (String × String) → Db → Prop
  | nil (db : Db) : Deletes db [] db
  | cons {db db₁ db₂ : Db} {collection id : String} {pairs : List (String × String)}
    (h : db.Deleted lib collection id db₁) (hrest : Deletes db₁ pairs db₂) :
    Deletes db ((collection, id) :: pairs) db₂

theorem Deleted.getObject (h : db.Deleted lib collection id db') (c i : String) :
    db'.getObject c i = if (c, i) = (collection, id) then none else db.getObject c i := by
  rw [Db.getObject, Db.getObject, h.collections, ExtTreeMap.getElem?_modify]
  by_cases hc : collection = c
  · subst hc
    cases db.collections[collection]? with
    | none => simp
    | some cell =>
      simp only [ReflCmp.compare_self, if_true, map_some, bind_some,
        VersionedCollection.bump, VersionedCollection.objects, Collection.objects_remove,
        getElem?_erase]
      by_cases hi : id = i
      · simp [hi]
      · simp [hi, Ne.symm hi]
  · simp [hc, Ne.symm hc]

theorem Deleted.other (h : db.Deleted lib collection id db') {c : String} (hc : collection ≠ c) :
    db'.collections[c]? = db.collections[c]? := by
  rw [h.collections, ExtTreeMap.getElem?_modify]
  simp [hc]

theorem Deleted.timed (h : db.Deleted lib collection id db')
    (htimed : db.Timed) : db'.Timed := by
  have hmodified := htimed.updateCell collection
    (f := fun v => v.bump (v.collection.remove id).2)
    fun v hv => hv.change (Collection.remove_changes hv.toKeyed id)
  intro name cell hcell
  rw [h.collections] at hcell
  exact hmodified name cell hcell

namespace Deletes

variable {pairs : List (String × String)}

theorem append {db₁ db₂ : Db} {more : List (String × String)} (h : Deletes lib db pairs db₁)
    (h' : Deletes lib db₁ more db₂) : Deletes lib db (pairs ++ more) db₂ := by
  induction h with
  | nil => exact h'
  | cons hd _ ih => exact .cons hd (ih h')

variable (h : Deletes lib db pairs db')

include h

theorem getObject (c i : String) :
    db'.getObject c i = if (c, i) ∈ pairs then none else db.getObject c i := by
  induction h with
  | nil => simp
  | @cons db db₁ db₂ collection id pairs hd _ ih =>
    rw [ih, hd.getObject]
    by_cases hfirst : (c, i) = (collection, id)
    · simp [hfirst]
    · simp only [mem_cons, hfirst, false_or, if_false]

theorem config : db'.config = db.config := by
  induction h with
  | nil => rfl
  | cons hd _ ih => exact ih.trans hd.config

theorem timed (htimed : db.Timed) : db'.Timed := by
  induction h with
  | nil => exact htimed
  | cons hd _ ih => exact ih (hd.timed htimed)

theorem other {c : String} (hc : ∀ pair ∈ pairs, pair.1 ≠ c) :
    db'.collections[c]? = db.collections[c]? := by
  induction h with
  | nil => rfl
  | cons hd _ ih =>
    obtain ⟨hfirst, hrest⟩ := forall_mem_cons.1 hc
    exact (ih hrest).trans (hd.other hfirst)

theorem logs (hstores : db.storage.storesCommandLog) :
    db.Logs lib (pairs.map fun pair => .del pair.1 pair.2) db' := by
  induction h with
  | nil db => exact ⟨[], [], (append_nil _).symm, rfl, rfl⟩
  | cons hd _ ih => exact (hd.logs hstores).append (ih (hd.stores.trans hstores))

end Deletes

variable {n : Nat}

theorem delEach_deletes (hwritable : db.config.readOnly = false) {ids : List String}
    (hnodup : ids.Nodup) (hstored : ∀ id ∈ ids, (db.getObject collection id).isSome = true)
    {removed : Nat} (h : db.delEach lib ctx collection ids removed = (.ok n, db')) :
    n = removed + ids.length ∧ Deletes lib db (ids.map (Prod.mk collection)) db' := by
  induction ids generalizing db removed with
  | nil =>
    cases h
    exact ⟨rfl, .nil _⟩
  | cons id ids ih =>
    obtain ⟨hnotin, hnodup⟩ := nodup_cons.1 hnodup
    obtain ⟨hfirst, hstored⟩ := forall_mem_cons.1 hstored
    rw [delEach] at h
    rcases hf : db.finish lib ctx (db.delExclusive lib ctx collection id) with ⟨_ | answer, db₁⟩
    · rw [hf] at h
      cases h
    rw [hf] at h
    obtain ⟨rfl, hdeleted⟩ := deleted_of_ok hwritable hfirst hf
    -- the others are still there
    have hstill : ∀ other ∈ ids, (db₁.getObject collection other).isSome = true := by
      intro other hother
      have hne : (collection, other) ≠ (collection, id) := by
        intro heq
        cases heq
        exact hnotin hother
      rw [hdeleted.getObject, if_neg hne]
      exact hstored other hother
    obtain ⟨rfl, hrest⟩ := ih (hdeleted.config ▸ hwritable) hnodup hstill h
    refine ⟨?_, .cons hdeleted hrest⟩
    rw [if_pos rfl, length_cons]
    omega

/-! ### All collections -/

def dueIds (db : Db) (name : String) (now : Nat) : List String :=
  match db.collections[name]? with
  | none => []
  | some cell => cell.collection.dueIds now

theorem dueIn_eq (db : Db) (name : String) (now max : Nat) :
    db.dueIn name now max = (db.dueIds name now).take max := by
  rw [dueIn, dueIds]
  cases db.collections[name]? with
  | none => exact take_nil.symm
  | some cell => exact cell.collection.dueExpirations_eq now max

theorem dueIds_congr {name : String} (h : db'.collections[name]? = db.collections[name]?)
    (now : Nat) : db'.dueIds name now = db.dueIds name now := by
  rw [dueIds, dueIds, h]

theorem mem_dueIds (htimed : db.Timed) {name i : String} {now : Nat} :
    i ∈ db.dueIds name now ↔
      ∃ object, db.getObject name i = some object ∧ isExpired now object = true := by
  rw [dueIds, Db.getObject]
  cases hcell : db.collections[name]? with
  | none => simp
  | some cell => exact (htimed name cell hcell).mem_dueIds

def dueAll (db : Db) (now : Nat) (names : List String) : List (String × String) :=
  names.flatMap fun name => (db.dueIds name now).map (Prod.mk name)

variable {nowMs max : Nat}

theorem expireCollections_deletes (hwritable : db.config.readOnly = false)
    (htimed : db.Timed) {names : List String}
    (hnodup : names.Nodup) {expired : Nat} (hle : expired ≤ max)
    (h : db.expireCollections lib ctx nowMs max names expired = (.ok n, db')) :
    n = expired + ((db.dueAll nowMs names).take (max - expired)).length ∧
      Deletes lib db ((db.dueAll nowMs names).take (max - expired)) db' := by
  induction names generalizing db expired with
  | nil =>
    cases h
    simp only [dueAll, flatMap_nil, take_nil, length_nil, Nat.add_zero]
    exact ⟨trivial, .nil _⟩
  | cons name names ih =>
    obtain ⟨hnotin, hnodup⟩ := nodup_cons.1 hnodup
    rw [expireCollections] at h
    split at h
    next hfull =>
      cases h
      rw [Nat.sub_eq_zero_of_le hfull, take_zero]
      exact ⟨rfl, .nil _⟩
    next hroom =>
      rw [dueIn_eq] at h
      rcases hd : db.delEach lib ctx name ((db.dueIds name nowMs).take (max - expired)) expired
        with ⟨_ | n₁, db₁⟩
      · rw [hd] at h
        cases h
      rw [hd] at h
      have hids : (db.dueIds name nowMs).Nodup := by
        rw [dueIds]
        cases hcell : db.collections[name]? with
        | none => exact nodup_nil
        | some cell => exact (htimed name cell hcell).toKeyed.nodup_dueIds
      have hstored : ∀ i ∈ (db.dueIds name nowMs).take (max - expired),
          (db.getObject name i).isSome = true := by
        intro i hi
        obtain ⟨object, hobject, -⟩ := (mem_dueIds htimed).1 (mem_of_mem_take hi)
        rw [hobject]
        rfl
      obtain ⟨rfl, hdeletes⟩ :=
        delEach_deletes hwritable (hids.sublist (take_sublist _ _)) hstored hd
      have hlen : ((db.dueIds name nowMs).take (max - expired)).length ≤ max - expired :=
        length_take_le _ _
      obtain ⟨rfl, hrest⟩ := ih (hdeletes.config ▸ hwritable) (hdeletes.timed htimed) hnodup
        (by omega) h
      -- what is due in the collections that follow has not changed
      have hsame : db₁.dueAll nowMs names = db.dueAll nowMs names := by
        refine flatMap_congr fun other hother => ?_
        have hother : db₁.collections[other]? = db.collections[other]? := by
          refine hdeletes.other fun pair hpair => ?_
          obtain ⟨i, -, rfl⟩ := mem_map.1 hpair
          rintro rfl
          exact hnotin hother
        rw [dueIds_congr hother]
      have hbudget : max - (expired + ((db.dueIds name nowMs).take (max - expired)).length) =
          max - expired - ((db.dueIds name nowMs).map (Prod.mk name)).length := by
        rw [length_map, length_take]
        omega
      rw [hsame, hbudget] at hrest ⊢
      have htake : (db.dueAll nowMs (name :: names)).take (max - expired) =
          ((db.dueIds name nowMs).take (max - expired)).map (Prod.mk name) ++
            (db.dueAll nowMs names).take
              (max - expired - ((db.dueIds name nowMs).map (Prod.mk name)).length) := by
        rw [dueAll, flatMap_cons, take_append, map_take]
        rfl
      rw [htake]
      refine ⟨?_, hdeletes.append hrest⟩
      simp only [length_append, length_map]
      omega

section DueAll

variable {now : Nat} {names : List String}

theorem mem_dueAll (htimed : db.Timed)
    (hnames : names.Perm db.collections.keys) {pair : String × String} :
    pair ∈ db.dueAll now names ↔
      ∃ object, db.getObject pair.1 pair.2 = some object ∧ isExpired now object = true := by
  rw [← mem_dueIds htimed, dueAll, mem_flatMap]
  constructor
  · rintro ⟨name, -, hpair⟩
    obtain ⟨i, hi, rfl⟩ := mem_map.1 hpair
    exact hi
  · intro hi
    refine ⟨pair.1, ?_, mem_map.2 ⟨pair.2, hi, rfl⟩⟩
    -- a collection with something due exists
    rw [hnames.mem_iff, ExtTreeMap.mem_keys, mem_iff_isSome_getElem?]
    rw [dueIds] at hi
    cases hcell : db.collections[pair.1]? with
    | none =>
      rw [hcell] at hi
      cases hi
    | some cell => rfl

def deadline? (db : Db) (pair : String × String) : Option Nat :=
  (db.getObject pair.1 pair.2).bind Object.expiresAt

def Sooner (db : Db) (a b : String × String) : Prop :=
  a.1 = b.1 → ∀ d d', db.deadline? a = some d → db.deadline? b = some d' → d ≤ d'

theorem dueAll_ordered (htimed : db.Timed) (hnodup : names.Nodup) :
    (db.dueAll now names).Pairwise fun a b => a ≠ b ∧ db.Sooner a b := by
  rw [dueAll, pairwise_flatMap]
  refine ⟨?_, ?_⟩
  · intro name _
    rw [pairwise_map, dueIds]
    cases hcell : db.collections[name]? with
    | none => exact List.Pairwise.nil
    | some cell =>
      refine (htimed name cell hcell).toKeyed.dueIds_ordered.imp fun {a b} hab => ?_
      have hdeadline : ∀ i, db.deadline? (name, i) = deadlineOf cell.collection.objects i := by
        intro i
        simp only [deadline?, Db.getObject, hcell, bind_some]
        rfl
      refine ⟨fun heq => hab.1 (Prod.mk.inj heq).2, fun _ d d' hd hd' => ?_⟩
      rw [hdeadline] at hd hd'
      exact hab.2 d d' hd hd'
  · refine hnodup.imp fun {a b} hab x hx y hy => ?_
    obtain ⟨i, -, rfl⟩ := mem_map.1 hx
    obtain ⟨j, -, rfl⟩ := mem_map.1 hy
    exact ⟨fun heq => hab (Prod.mk.inj heq).1, fun heq => absurd heq hab⟩

def dueCount (db : Db) (now : Nat) : Nat :=
  (db.collections.toList.map fun c => c.2.collection.dueCount now).sum

theorem length_dueAll (htimed : db.Timed)
    (hnames : names.Perm db.collections.keys) : (db.dueAll now names).length = db.dueCount now := by
  have hcell : ∀ c ∈ db.collections.toList,
      ((db.dueIds c.1 now).map (Prod.mk c.1)).length = c.2.collection.dueCount now := by
    intro c hc
    have hget := mem_toList_iff_getElem?_eq_some.1 hc
    rw [length_map, dueIds, hget]
    exact (htimed c.1 c.2 hget).length_dueIds
  have hsum := (hnames.map fun name => ((db.dueIds name now).map (Prod.mk name)).length).sum_nat
  rw [dueAll, length_flatMap, hsum, ← map_fst_toList_eq_keys, List.map_map,
    dueCount]
  exact congrArg sum (map_congr_left hcell)

end DueAll

variable (lib) in
structure Swept (db : Db) (nowMs max : Nat) (deleted : List (String × String)) (db' : Db) :
    Prop where
  count : deleted.length = min max (db.dueCount nowMs)
  nodup : deleted.Nodup
  due : ∀ pair ∈ deleted, ∃ object, db.getObject pair.1 pair.2 = some object ∧
    isExpired nowMs object = true
  objects : ∀ c id, db'.getObject c id = if (c, id) ∈ deleted then none else db.getObject c id
  config : db'.config = db.config
  ordered : deleted.Pairwise db.Sooner
  oldest : ∀ a ∈ deleted, ∀ b, b ∉ deleted → db.Sooner a b
  logs : db.storage.storesCommandLog = true →
    db.Logs lib (deleted.map fun pair => .del pair.1 pair.2) db'

theorem Sooner.of_not_due {a b : String × String}
    (ha : ∃ object, db.getObject a.1 a.2 = some object ∧ isExpired nowMs object = true)
    (hb : ¬ ∃ object, db.getObject b.1 b.2 = some object ∧ isExpired nowMs object = true) :
    db.Sooner a b := by
  intro _ d d' hd hd'
  obtain ⟨object, hobject, hexpired⟩ := ha
  rw [deadline?, hobject, bind_some] at hd
  obtain ⟨other, hother, hd'⟩ := bind_eq_some_iff.1 hd'
  have hlate : ¬ isExpired nowMs other = true := fun h => hb ⟨other, hother, h⟩
  simp only [isExpired, hd, decide_eq_true_eq] at hexpired
  simp only [isExpired, hd', decide_eq_true_eq] at hlate
  omega

theorem swept_of_deletes (htimed : db.Timed) {names : List String}
    (hnames : names.Perm db.collections.keys)
    (h : Deletes lib db ((db.dueAll nowMs names).take max) db') :
    db.Swept lib nowMs max ((db.dueAll nowMs names).take max) db' := by
  have hnodup : names.Nodup := hnames.nodup_iff.2 nodup_keys
  have hall := @dueAll_ordered db nowMs names htimed hnodup
  have hdue : ∀ pair ∈ (db.dueAll nowMs names).take max, ∃ object,
      db.getObject pair.1 pair.2 = some object ∧ isExpired nowMs object = true :=
    fun pair hpair => (mem_dueAll htimed hnames).1 (mem_of_mem_take hpair)
  have hsplit := hall
  rw [← take_append_drop max (db.dueAll nowMs names), pairwise_append] at hsplit
  refine ⟨?_, ?_, hdue, h.getObject, h.config, ?_, ?_, fun hstores => h.logs hstores⟩
  · rw [length_take, length_dueAll htimed hnames]
  · exact hsplit.1.imp fun hab => hab.1
  · exact hsplit.1.imp fun hab => hab.2
  · intro a ha b hb
    by_cases hbdue : b ∈ db.dueAll nowMs names
    · -- it was due, but behind the bound
      have hdrop : b ∈ (db.dueAll nowMs names).drop max := by
        rw [← take_append_drop max (db.dueAll nowMs names)] at hbdue
        exact (mem_append.1 hbdue).resolve_left hb
      exact (hsplit.2.2 a ha b hdrop).2
    · exact .of_not_due (hdue a ha) fun hexists => hbdue ((mem_dueAll htimed hnames).2 hexists)

theorem expireDue_swept (hdb : db.InStep) (hwritable : db.config.readOnly = false)
    (h : db.expireDue lib ctx nowMs max = (.ok n, db')) :
    ∃ deleted, n = deleted.length ∧ db.Swept lib nowMs max deleted db' := by
  rw [expireDue, hwritable] at h
  rcases hr : db.expireCollections lib ctx nowMs max (ctx.order db.collections.keys) 0 with
    ⟨_ | total, db₁⟩
  · rw [hr] at h
    cases h
  rw [hr] at h
  cases h
  have hnames := ctx.order_perm db.collections.keys
  have hnodup := hnames.nodup_iff.2 (nodup_keys (t := db.collections))
  obtain ⟨hn, hdeletes⟩ :=
    expireCollections_deletes hwritable hdb.timed hnodup (Nat.zero_le max) hr
  have hswept := swept_of_deletes hdb.timed hnames hdeletes
  refine ⟨_, ?_, hswept.count, hswept.nodup, hswept.due, hswept.objects, hswept.config,
    hswept.ordered, hswept.oldest, hswept.logs⟩
  rw [hn, Nat.zero_add]

/-! ### Sweeps until nothing is due -/

variable (lib) in
def expireAll (ctxs : Nat → Ctx) (nowMs max : Nat) :
    Nat → Nat → Db → Except CoreError (Option Nat) × Db
  | 0, _, db => (.ok none, db)
  | fuel + 1, round, db =>
    match db.expireDue lib (ctxs round) nowMs max with
    | (.error e, db) => (.error e, db)
    | (.ok 0, db) => (.ok (some 0), db)
    | (.ok (n + 1), db) =>
      let (total, db) := expireAll ctxs nowMs max fuel (round + 1) db
      (total.map fun total => total.map (n + 1 + ·), db)

theorem InStep.expireDue (hdb : db.InStep)
    (h : db.expireDue lib ctx nowMs max = (.ok n, db')) : db'.InStep := by
  have hok : (db.call lib ctx (.expireDue nowMs max)).1 = .ok () := by
    simp only [Db.call, h]
    rfl
  have hstep := hdb.call hok
  simp only [Db.call, h] at hstep
  exact hstep

theorem Swept.dueCount {deleted : List (String × String)}
    (h : db.Swept lib nowMs max deleted db') (htimed : db.Timed)
    (htimed' : db'.Timed) :
    deleted.length + db'.dueCount nowMs = db.dueCount nowMs := by
  have hnodup : ∀ {db : Db}, db.Timed →
      (db.dueAll nowMs db.collections.keys).Nodup := fun htimed =>
    (dueAll_ordered htimed nodup_keys).imp fun hab => hab.1
  have hmem : ∀ pair, pair ∈ db'.dueAll nowMs db'.collections.keys ↔
      pair ∈ db.dueAll nowMs db.collections.keys ∧ pair ∉ deleted := by
    intro pair
    rw [mem_dueAll htimed' (.refl _), mem_dueAll htimed (.refl _), h.objects]
    by_cases hdeleted : pair ∈ deleted
    · simp [hdeleted]
    · simp [hdeleted]
  have hperm : (deleted ++ db'.dueAll nowMs db'.collections.keys).Perm
      (db.dueAll nowMs db.collections.keys) := by
    refine (perm_ext_iff_of_nodup ?_ (hnodup htimed)).2 ?_
    · refine nodup_append.2 ⟨h.nodup, hnodup htimed', ?_⟩
      rintro a ha b hb rfl
      exact ((hmem a).1 hb).2 ha
    · intro pair
      rw [mem_append, hmem]
      constructor
      · rintro (hdeleted | ⟨hdue, -⟩)
        · exact (mem_dueAll htimed (.refl _)).2 (h.due pair hdeleted)
        · exact hdue
      · intro hdue
        by_cases hdeleted : pair ∈ deleted
        · exact .inl hdeleted
        · exact .inr ⟨hdue, hdeleted⟩
  have hlen := hperm.length_eq
  rw [length_append, length_dueAll htimed (.refl _), length_dueAll htimed' (.refl _)] at hlen
  exact hlen

theorem getObject_of_dueCount_zero (htimed : db.Timed)
    (hzero : db.dueCount nowMs = 0) (c i : String) :
    db.getObject c i = (db.getObject c i).filter fun object => !isExpired nowMs object := by
  cases hobject : db.getObject c i with
  | none => rfl
  | some object =>
    have hlive : isExpired nowMs object = false := by
      by_contra hexpired
      have hmem : (c, i) ∈ db.dueAll nowMs db.collections.keys :=
        (mem_dueAll htimed (.refl _)).2 ⟨object, hobject, by simpa using hexpired⟩
      rw [← length_dueAll htimed (.refl _), length_eq_zero_iff] at hzero
      rw [hzero] at hmem
      cases hmem
    simp [Option.filter, hlive]

theorem expireAll_exact (hdb : db.InStep) (hwritable : db.config.readOnly = false)
    {ctxs : Nat → Ctx} {fuel round : Nat} (hmax : 1 ≤ max)
    (hfuel : db.dueCount nowMs < fuel) {total : Option Nat}
    (h : expireAll lib ctxs nowMs max fuel round db = (.ok total, db')) :
    total = some (db.dueCount nowMs) ∧ ∀ c id, db'.getObject c id =
      (db.getObject c id).filter fun object => !isExpired nowMs object := by
  induction fuel generalizing db db' round total with
  | zero => exact absurd hfuel (Nat.not_lt_zero _)
  | succ fuel ih =>
    rw [expireAll] at h
    rcases hsweep : db.expireDue lib (ctxs round) nowMs max with ⟨_ | n, db₁⟩
    · rw [hsweep] at h
      cases h
    rw [hsweep] at h
    obtain ⟨deleted, rfl, hswept⟩ := expireDue_swept hdb hwritable hsweep
    have hdb₁ := hdb.expireDue hsweep
    have hcount := hswept.dueCount hdb.timed hdb₁.timed
    have hbound := hswept.count
    cases deleted with
    | nil =>
      -- nothing was deleted, so nothing was due
      have hzero : db.dueCount nowMs = 0 := by
        rw [length_nil] at hbound
        omega
      cases h
      refine ⟨by rw [hzero], fun c i => ?_⟩
      rw [hswept.objects, if_neg not_mem_nil]
      exact getObject_of_dueCount_zero hdb.timed hzero c i
    | cons pair deleted =>
      rw [length_cons] at h hcount hbound
      dsimp only at h
      rcases hrest : expireAll lib ctxs nowMs max fuel (round + 1) db₁ with ⟨_ | rest, db₂⟩
      · rw [hrest] at h
        cases h
      rw [hrest] at h
      have hwritable₁ : db₁.config.readOnly = false := hswept.config ▸ hwritable
      obtain ⟨rfl, hobjects⟩ := ih hdb₁ hwritable₁ (by omega) hrest
      cases h
      refine ⟨congrArg some hcount, fun c i => ?_⟩
      rw [hobjects, hswept.objects]
      split
      next hdeleted =>
        obtain ⟨object, hobject, hexpired⟩ := hswept.due (c, i) hdeleted
        rw [hobject]
        simp [Option.filter, hexpired]
      next => rfl

/-! ### Nothing but the backend can stop a sweep -/

structure Works (db : Db) : Prop where
  writable : db.config.readOnly = false
  quiet : db.storage.faults = []
  isOpen : db.storage.closed = false
  counted : db.Counted

variable (hjson : lib.codec.Total)

include hjson

theorem Works.persist (h : db.Works) (ctx : Ctx) {w : Write} (hpos : 0 < w.batch.count) :
    ∃ sequences db', db.persist lib ctx w.batch = (.ok sequences, db') ∧
      db'.toStore = db.toStore ∧ db'.Works := by
  rw [db.persist_of_pos lib ctx hpos]
  cases hstores : db.storage.storesCommandLog with
  | false =>
    exact ⟨_, _, rfl, rfl, h.writable, h.quiet, h.isOpen,
      h.counted.trans (Nat.le_add_right _ _)⟩
  | true =>
    obtain ⟨hhead, hnext⟩ := Reservation.next hpos fun last hlast =>
      (lastSequence_of_getLast? hlast).symm.trans_le h.counted
    obtain ⟨entries, -, happend, hend⟩ := hnext.append hjson h.quiet h.isOpen ctx.nowNs
    refine ⟨_, _, happend, rfl, h.writable, h.quiet, h.isOpen, ?_⟩
    show lastSequence (db.storage.entries ++ entries) ≤ db.nextSequence + w.batch.count
    cases hlast : (db.storage.entries ++ entries).getLast? with
    | none =>
      rw [getLast?_eq_none_iff.1 hlast]
      exact Nat.zero_le _
    | some last =>
      have hle := hend last hlast
      rw [lastSequence_of_getLast? hlast]
      omega

theorem Works.delete (ctx : Ctx) (db : Db) (collection id : String) (h : db.Works) :
    Ends Works (fun _ => False) (db.finish lib ctx (db.delExclusive lib ctx collection id)) := by
  cases hstored : (db.getObject collection id).isSome with
  | false =>
    have hnone : db.getObject collection id = none := by simpa using hstored
    rw [delExclusive, db.ensureWritable_ok_iff.2 h.writable, hnone]
    exact h
  | true =>
    obtain ⟨w, webhooks, hplan, hbatch, heffect, hreply⟩ :=
      @delExclusive_stored lib db ctx collection id h.writable hstored
    have hpos : 0 < w.batch.count := by
      rw [hbatch]
      exact Nat.add_pos_left Nat.one_pos _
    obtain ⟨sequences, db₁, hpersist, hstore, hworks⟩ := h.persist hjson ctx hpos
    obtain ⟨hanswer, -⟩ := @apply_remove lib db collection id w heffect hstored
    rw [hplan, finish, commit, hpersist]
    dsimp only
    rw [hstore]
    rcases hr : w.apply lib db.toStore with ⟨r, s⟩
    rw [hr, hreply] at hanswer
    cases hanswer
    exact ⟨hworks.writable, hworks.quiet, hworks.isOpen, hworks.counted⟩

theorem Works.expireDue (h : db.Works) (ctx : Ctx) (nowMs max : Nat) :
    ∃ n db', db.expireDue lib ctx nowMs max = (.ok n, db') ∧ db'.Works := by
  have hcount : ∀ db total, Works db → Works { db with expiredObjectsTotal := total } :=
    fun db total hdb => ⟨hdb.writable, hdb.quiet, hdb.isOpen, hdb.counted⟩
  have hends := Db.expireDue_ends (Works.delete hjson ctx) hcount h nowMs max
  rcases hr : db.expireDue lib ctx nowMs max with ⟨_ | n, db'⟩
  · rw [hr] at hends
    exact hends.elim
  · rw [hr] at hends
    exact ⟨n, db', rfl, hends⟩

theorem Works.expireAll (h : db.Works) (ctxs : Nat → Ctx) (nowMs max fuel round : Nat) :
    ∃ total, (Db.expireAll lib ctxs nowMs max fuel round db).1 = .ok total := by
  induction fuel generalizing db round with
  | zero => exact ⟨none, rfl⟩
  | succ fuel ih =>
    obtain ⟨n, db₁, hsweep, hworks⟩ := h.expireDue hjson (ctxs round) nowMs max
    rw [Db.expireAll, hsweep]
    cases n with
    | zero => exact ⟨some 0, rfl⟩
    | succ n =>
      obtain ⟨total, htotal⟩ := ih hworks (round + 1)
      dsimp only
      rw [htotal]
      exact ⟨_, rfl⟩

end Db

/-- In every state that calls which succeed lead to, a sweep of a writable node that returns has
deleted exactly the objects `Swept` describes, and repeating it removes everything that is due. If
records can be encoded and the backend works, it does return. -/
theorem expireDue_exact {ctx₀ : Ctx} {storage : LogStore} {config : Config} {db₀ : Db}
    (hlog : Increasing storage.entries) (hbuild : (build lib ctx₀ storage config).1 = .ok db₀)
    {calls : List (Ctx × Call)} (hok : db₀.EachOk lib calls) {db : Db}
    (hdb : db₀.run lib calls = db) (hwritable : db.config.readOnly = false) (nowMs max : Nat) :
    (∀ ctx n db', db.expireDue lib ctx nowMs max = (.ok n, db') →
      ∃ deleted, n = deleted.length ∧ db.Swept lib nowMs max deleted db') ∧
    (1 ≤ max → ∀ ctxs fuel total db', db.dueCount nowMs < fuel →
      Db.expireAll lib ctxs nowMs max fuel 0 db = (.ok total, db') →
      total = some (db.dueCount nowMs) ∧ ∀ c id, db'.getObject c id =
        (db.getObject c id).filter fun object => !isExpired nowMs object) ∧
    ((∀ record, ∃ payload, lib.codec.toJson record = .ok payload) → db.storage.faults = [] →
      db.storage.closed = false →
      (∀ ctx, ∃ n, (db.expireDue lib ctx nowMs max).1 = .ok n) ∧
      ∀ ctxs fuel, ∃ total, (Db.expireAll lib ctxs nowMs max fuel 0 db).1 = .ok total) := by
  have hinStep : db.InStep := hdb ▸ (Db.inStep_build hlog hbuild).run hok
  refine ⟨?_, ?_, ?_⟩
  · intro ctx n db' h
    exact Db.expireDue_swept hinStep hwritable h
  · intro hmax ctxs fuel total db' hfuel h
    exact Db.expireAll_exact hinStep hwritable hmax hfuel h
  · intro hjson hquiet hopen
    have hworks : db.Works := ⟨hwritable, hquiet, hopen, hinStep.counted⟩
    refine ⟨fun ctx => ?_, fun ctxs fuel => hworks.expireAll hjson ctxs nowMs max fuel 0⟩
    obtain ⟨n, db', hsweep, -⟩ := hworks.expireDue hjson ctx nowMs max
    exact ⟨n, by rw [hsweep]⟩

namespace Overdue

open Sample

def visit : Ctx × Call :=
  (sampleCtx, .request (.set
    { collection := "fleet", id := "truck", object := .string "idle", fields := []
      expireSeconds := some 1, condition := .always }))

def visits : List (Ctx × Call) :=
  [visit, (sampleCtx, .request (setIdle "fleet" "crane")),
    (sampleCtx, .request (setIdle "yard" "crane"))]

/-- The sweep deletes the truck and leaves the cranes. -/
theorem overdue_truck_swept : ∃ db₀, (build blankLib sampleCtx {} {}).1 = .ok db₀ ∧
    ((db₀.run blankLib visits).getObject "fleet" "truck").isSome ∧
    ∃ db', (db₀.run blankLib visits).expireDue blankLib sampleCtx 5000 3 = (.ok 1, db') ∧
      db'.getObject "fleet" "truck" = none ∧ (db'.getObject "fleet" "crane").isSome ∧
      (db'.getObject "yard" "crane").isSome = true := by
  refine ⟨_, rfl, rfl, ?_⟩
  obtain ⟨hexact, -, hreturns⟩ := @expireDue_exact blankLib sampleCtx {} {} _ List.Pairwise.nil rfl
    visits ⟨rfl, rfl, rfl, trivial⟩ _ rfl rfl 5000 3
  obtain ⟨⟨n, hn⟩, -⟩ := (hreturns (fun record => ⟨[], rfl⟩) rfl rfl).imp_left fun h => h sampleCtx
  obtain ⟨deleted, hlength, hswept⟩ := hexact sampleCtx n _ (Prod.ext hn rfl)
  have hone : n = 1 := hlength.trans hswept.count
  subst hone
  exact ⟨_, Prod.ext hn rfl, rfl, rfl, rfl⟩

end Overdue

/-! ### Rounds of the sweep task

A round first looks up the earliest deadline, so that an idle one never takes the exclusive gate. -/

namespace Db

def firstDeadlines (db : Db) : List Nat :=
  db.collections.toList.filterMap fun entry =>
    entry.2.collection.expirations.toList.head?.map Prod.fst

def nextExpiryMs (db : Db) : Option Nat := db.firstDeadlines.min?

def expirySweepBatch : Nat := 10000

variable (lib) in
/-- What a tick of the task runs on a leader. -/
def sweepRound (db : Db) (ctx : Ctx) (nowMs : Nat) : Except CoreError Nat × Db :=
  if db.nextExpiryMs.all (nowMs < ·) then (.ok 0, db)
  else db.expireDue lib ctx nowMs expirySweepBatch

theorem dueIds_of_nextExpiryMs {db : Db} {nowMs : Nat}
    (h : db.nextExpiryMs.all (nowMs < ·)) (name : String) : db.dueIds name nowMs = [] := by
  rw [dueIds]
  cases hcell : db.collections[name]? with
  | none => rfl
  | some cell =>
    cases hlist : cell.collection.expirations.toList with
    | nil => simp [Collection.dueIds, hlist]
    | cons first rest =>
      have hmem : first.1 ∈ db.firstDeadlines := by
        refine mem_filterMap.2 ⟨_, mem_toList_iff_getElem?_eq_some.2 hcell, ?_⟩
        rw [hlist]
        rfl
      -- the earliest deadline of all is at or before the first of this collection
      obtain ⟨least, hleast⟩ := isSome_iff_exists.1 (isSome_min?_of_mem hmem)
      have hlate : nowMs < first.1 := by
        rw [nextExpiryMs, hleast] at h
        exact (of_decide_eq_true h).trans_le ((le_min?_iff hleast).1 le_rfl _ hmem)
      simp [Collection.dueIds, hlist, hlate]

/-- The look at the deadlines never changes what a round does. -/
theorem sweepRound_eq_expireDue (db : Db) (ctx : Ctx) (nowMs : Nat) :
    db.sweepRound lib ctx nowMs = db.expireDue lib ctx nowMs expirySweepBatch := by
  rw [sweepRound]
  split
  next hidle =>
    have hnothing : ∀ names, db.expireCollections lib ctx nowMs expirySweepBatch names 0 =
        (.ok 0, db) := by
      intro names
      induction names with
      | nil => rfl
      | cons name names ih =>
        rw [expireCollections, dueIn_eq, dueIds_of_nextExpiryMs hidle, take_nil]
        exact ih
    rw [expireDue, hnothing]
    split <;> rfl
  next => rfl

end Db

end LatLng.Core
