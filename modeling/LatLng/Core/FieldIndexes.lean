import LatLng.Core.Reachable

/-! What the field indexes list. An index entry is always backed by a stored value; an object
that is stored need not be listed, since a refused replacement takes the old object out. -/

namespace LatLng.Core

open Geo Geofence Storage Std ExtTreeMap

/-! ### Adding and removing one id -/

section ValueIndex

variable {κ : Type} {cmp : κ → κ → Ordering} [TransCmp cmp]

def idsAt (indexes : ValueIndex κ cmp) (field : String) (value : κ) : ExtTreeSet String :=
  ((indexes[field]?.getD ∅)[value]?).getD ∅

theorem idsAt_insert (indexes : ValueIndex κ cmp) (field field' : String)
    (values : ExtTreeMap κ (ExtTreeSet String) cmp) (value : κ) :
    idsAt (indexes.insert field values) field' value =
      if field = field' then values[value]?.getD ∅ else idsAt indexes field' value := by
  rw [idsAt, getElem?_insert]
  by_cases hf : field = field' <;> simp [hf, idsAt]

theorem idsAt_erase (indexes : ValueIndex κ cmp) (field field' : String) (value : κ) :
    idsAt (indexes.erase field) field' value =
      if field = field' then ∅ else idsAt indexes field' value := by
  rw [idsAt, getElem?_erase]
  by_cases hf : field = field' <;> simp [hf, idsAt]

variable [LawfulEqCmp cmp] [DecidableEq κ] {value value' : κ} {id id' : String}
  {indexes : ValueIndex κ cmp}

theorem mem_idsAt_addIndexedId {field field' : String} :
    id' ∈ idsAt (addIndexedId indexes field value id) field' value' ↔
      (field = field' ∧ value = value' ∧ id = id') ∨ id' ∈ idsAt indexes field' value' := by
  rw [addIndexedId, idsAt_insert]
  by_cases hf : field = field'
  · subst hf
    rw [if_pos rfl, getElem?_insert]
    by_cases hv : value = value'
    · subst hv
      simp [idsAt]
    · simp [hv, idsAt]
  · simp [hf]

def withoutId (values : ExtTreeMap κ (ExtTreeSet String) cmp) (value : κ) (id : String) :
    ExtTreeMap κ (ExtTreeSet String) cmp :=
  match values[value]? with
  | none => values
  | some ids =>
    if (ids.erase id).isEmpty then values.erase value else values.insert value (ids.erase id)

theorem mem_withoutId {values : ExtTreeMap κ (ExtTreeSet String) cmp} :
    id' ∈ (withoutId values value id)[value']?.getD ∅ ↔
      ¬ (value = value' ∧ id = id') ∧ id' ∈ values[value']?.getD ∅ := by
  unfold withoutId
  cases hids : values[value]? with
  | none =>
    by_cases hv : value = value'
    · subst hv
      simp [hids]
    · simp [hv]
  | some ids =>
    have hempty : (ids.erase id).isEmpty = true → (id' ∈ ids → id = id') := by
      intro he hmem
      by_contra hne
      have : id' ∈ ids.erase id := by simp [ExtTreeSet.mem_erase, hne, hmem]
      rw [ExtTreeSet.isEmpty_iff.1 he] at this
      simp at this
    by_cases hv : value = value'
    · subst hv
      by_cases he : (ids.erase id).isEmpty = true
      · have hid := hempty he
        simp only [he, if_true, getElem?_erase_self, hids, Option.getD_none,
          Option.getD_some]
        simp
        exact fun hne hmem => hne (hid hmem)
      · simp [he, hids, ExtTreeSet.mem_erase]
    · by_cases he : (ids.erase id).isEmpty = true <;>
        simp [he, hv, getElem?_erase, getElem?_insert]

theorem mem_idsAt_removeIndexedId {field field' : String} :
    id' ∈ idsAt (removeIndexedId indexes field value id) field' value' ↔
      ¬ (field = field' ∧ value = value' ∧ id = id') ∧ id' ∈ idsAt indexes field' value' := by
  unfold removeIndexedId
  cases hvalues : indexes[field]? with
  | none =>
    by_cases hf : field = field'
    · subst hf
      simp [idsAt, hvalues]
    · simp [hf]
  | some values =>
    have hmem : id' ∈ (withoutId values value id)[value']?.getD ∅ ↔
        ¬ (value = value' ∧ id = id') ∧ id' ∈ values[value']?.getD ∅ := mem_withoutId
    change id' ∈ idsAt (if (withoutId values value id).isEmpty then indexes.erase field
      else indexes.insert field (withoutId values value id)) field' value' ↔ _
    by_cases hf : field = field'
    · subst hf
      have hold : idsAt indexes field value' = values[value']?.getD ∅ := by
        rw [idsAt, hvalues, Option.getD_some]
      rw [hold]
      by_cases he : (withoutId values value id).isEmpty = true
      · rw [isEmpty_iff.1 he] at hmem
        simpa [he, idsAt_erase] using hmem
      · simpa [he, idsAt_insert] using hmem
    · by_cases he : (withoutId values value id).isEmpty = true <;>
        simp [he, hf, idsAt_erase, idsAt_insert]

end ValueIndex

/-! ### The entries of an object -/

/-- What a value is listed under: numbers by their bit pattern, texts and JSON by their text. -/
inductive IndexKey where
  | number (n : F64)
  | text (s : String)
deriving DecidableEq

def indexKey : FieldValue → IndexKey
  | .number n => .number n
  | .text s => .text s
  | .json s => .text s

namespace FieldIndexes

def Lists (indexes : FieldIndexes) (field : String) (key : IndexKey) (id : String) : Prop :=
  match key with
  | .number n => id ∈ idsAt indexes.numeric field n
  | .text s => id ∈ idsAt indexes.text field s

def Holds (object : Object) (field : String) (key : IndexKey) : Prop :=
  ∃ value, object.fields[field]? = some value ∧ indexKey value = key

def addEntry (indexes : FieldIndexes) (field : String) (key : IndexKey) (id : String) :
    FieldIndexes :=
  match key with
  | .number n => { indexes with numeric := addIndexedId indexes.numeric field n id }
  | .text s => { indexes with text := addIndexedId indexes.text field s id }

def dropEntry (indexes : FieldIndexes) (field : String) (key : IndexKey) (id : String) :
    FieldIndexes :=
  match key with
  | .number n => { indexes with numeric := removeIndexedId indexes.numeric field n id }
  | .text s => { indexes with text := removeIndexedId indexes.text field s id }

theorem insertObject_eq (indexes : FieldIndexes) (object : Object) :
    indexes.insertObject object = object.fields.toList.foldl
      (fun indexes e => indexes.addEntry e.1 (indexKey e.2) object.id) indexes := by
  unfold insertObject
  congr 1
  funext indexes e
  obtain ⟨field, value⟩ := e
  cases value <;> rfl

theorem removeObject_eq (indexes : FieldIndexes) (object : Object) :
    indexes.removeObject object = object.fields.toList.foldl
      (fun indexes e => indexes.dropEntry e.1 (indexKey e.2) object.id) indexes := by
  unfold removeObject
  congr 1
  funext indexes e
  obtain ⟨field, value⟩ := e
  cases value <;> rfl

variable {indexes : FieldIndexes} {object : Object} {field field' id id' : String}
  {key key' : IndexKey}

theorem lists_addEntry : (indexes.addEntry field key id).Lists field' key' id' ↔
    (field = field' ∧ key = key' ∧ id = id') ∨ indexes.Lists field' key' id' := by
  cases key <;> cases key' <;> simp [addEntry, Lists, mem_idsAt_addIndexedId]

theorem lists_dropEntry : (indexes.dropEntry field key id).Lists field' key' id' ↔
    ¬ (field = field' ∧ key = key' ∧ id = id') ∧ indexes.Lists field' key' id' := by
  cases key <;> cases key' <;> simp [dropEntry, Lists, mem_idsAt_removeIndexedId]

theorem holds_iff_mem : Holds object field key ↔
    ∃ value, (field, value) ∈ object.fields.toList ∧ indexKey value = key := by
  simp only [Holds, mem_toList_iff_getElem?_eq_some]

theorem lists_insertObject : (indexes.insertObject object).Lists field key id ↔
    (object.id = id ∧ Holds object field key) ∨ indexes.Lists field key id := by
  rw [insertObject_eq, holds_iff_mem]
  induction object.fields.toList generalizing indexes with
  | nil => simp
  | cons entry entries ih =>
    rw [List.foldl_cons, ih, lists_addEntry]
    constructor
    · rintro (⟨hid, value, hmem, hkey⟩ | ⟨hfield, hkey, hid⟩ | hold)
      · exact .inl ⟨hid, value, List.mem_cons_of_mem _ hmem, hkey⟩
      · exact .inl ⟨hid, entry.2, by simp [← hfield], hkey⟩
      · exact .inr hold
    · rintro (⟨hid, value, hmem, hkey⟩ | hold)
      · rcases List.mem_cons.1 hmem with heq | hmem
        · exact .inr (.inl ⟨by rw [← heq], by rw [← heq]; exact hkey, hid⟩)
        · exact .inl ⟨hid, value, hmem, hkey⟩
      · exact .inr (.inr hold)

theorem lists_removeObject : (indexes.removeObject object).Lists field key id ↔
    ¬ (object.id = id ∧ Holds object field key) ∧ indexes.Lists field key id := by
  rw [removeObject_eq, holds_iff_mem]
  induction object.fields.toList generalizing indexes with
  | nil => simp
  | cons entry entries ih =>
    rw [List.foldl_cons, ih, lists_dropEntry]
    constructor
    · rintro ⟨hrest, hfirst, hold⟩
      refine ⟨?_, hold⟩
      rintro ⟨hid, value, hmem, hkey⟩
      rcases List.mem_cons.1 hmem with heq | hmem
      · exact hfirst ⟨by rw [← heq], by rw [← heq]; exact hkey, hid⟩
      · exact hrest ⟨hid, value, hmem, hkey⟩
    · rintro ⟨hnot, hold⟩
      refine ⟨?_, ?_, hold⟩
      · rintro ⟨hid, value, hmem, hkey⟩
        exact hnot ⟨hid, value, List.mem_cons_of_mem _ hmem, hkey⟩
      · rintro ⟨hfield, hkey, hid⟩
        exact hnot ⟨hid, entry.2, by simp [← hfield], hkey⟩

theorem lists_replace {old new : Option Object} (hold : ∀ o, old = some o → o.id = id)
    (hnew : ∀ o, new = some o → o.id = id) : (indexes.replace old new).Lists field key id' ↔
      (id = id' ∧ ∃ o, new = some o ∧ Holds o field key) ∨
      (¬ (id = id' ∧ ∃ o, old = some o ∧ Holds o field key) ∧ indexes.Lists field key id') := by
  have hdropped : (old.elim indexes indexes.removeObject).Lists field key id' ↔
      ¬ (id = id' ∧ ∃ o, old = some o ∧ Holds o field key) ∧ indexes.Lists field key id' := by
    cases old with
    | none => simp
    | some o => simp [lists_removeObject, hold o rfl]
  rw [replace, ← hdropped]
  cases new with
  | none => simp
  | some o => simp [lists_insertObject, hnew o rfl]

end FieldIndexes

/-! ### Every entry is backed by a stored value -/

def Backed (objects : ExtTreeMap String Object) (indexes : FieldIndexes) : Prop :=
  ∀ id field key, indexes.Lists field key id →
    ∃ object, objects[id]? = some object ∧ FieldIndexes.Holds object field key

namespace Collection

structure Fielded (c : Collection) : Prop extends c.Keyed where
  backed : Backed c.objects c.fieldIndexes

variable {c : Collection}

theorem Fielded.unindex (h : c.Fielded) (id : String) : (c.unindex id).Fielded := by
  refine ⟨h.toKeyed.unindex id, fun other field key hl => ?_⟩
  rw [fieldIndexes_unindex] at hl
  rw [objects_unindex]
  cases ho : c.objects[id]? with
  | none =>
    rw [ho] at hl
    exact h.backed other field key hl
  | some object =>
    rw [ho] at hl
    exact h.backed other field key (FieldIndexes.lists_removeObject.1 hl).2

theorem Fielded.change (h : c.Fielded) {id : String} {c' : Collection} (hc : c.Changes id c') :
    c'.Fielded := by
  refine ⟨h.toKeyed.change hc, fun other field key hl => ?_⟩
  rcases hc.fields with ⟨hindexes, hfields⟩ | hindexes
  · rw [hindexes] at hl
    obtain ⟨stored, hs, value, hvalue, hkey⟩ := h.backed other field key hl
    by_cases hid : id = other
    · subst hid
      rw [hs] at hfields
      obtain ⟨stored', hs', heq⟩ := Option.map_eq_some_iff.1 hfields
      exact ⟨stored', hs', value, by rw [heq]; exact hvalue, hkey⟩
    · exact ⟨stored, (hc.others other hid).trans hs, value, hvalue, hkey⟩
  · rw [hindexes, FieldIndexes.lists_replace (h.ids id) hc.ids] at hl
    rcases hl with ⟨rfl, hnew⟩ | ⟨hnot, hl⟩
    · exact hnew
    · obtain ⟨stored, hs, hholds⟩ := h.backed other field key hl
      have hid : id ≠ other := by
        rintro rfl
        exact hnot ⟨rfl, stored, hs, hholds⟩
      exact ⟨stored, (hc.others other hid).trans hs, hholds⟩

theorem fielded_kept (lib : Lib) : Collection.KeptOr lib Fielded Fielded := by
  refine .of_changes (fun _ h => h.toKeyed) (fun _ h => h) (fun name => ?_)
    (fun _ _ h => ⟨⟨h.ids, h.deadlines⟩, h.backed⟩) (fun _ id h => h.unindex id)
    fun _ _ _ h hc => h.change hc
  refine ⟨keyed_new name, ?_⟩
  intro id field key hl
  cases key <;> simp [FieldIndexes.Lists, idsAt] at hl

end Collection

/-! ### In every state that can be reached -/

variable {lib : Lib} {P : Collection → Prop}

theorem Store.Moves.each (hP : Collection.KeptOr lib P P) {s s' : Store} (hm : s.Moves lib s')
    (h : s.Each P) : s'.Each P := by
  cases hm with
  | write hw => exact (hP.write h _).same
  | replay now command => exact (hP.applyPersistedCommand h now command).same
  | gc now => exact Store.Each.gcCollections hP.remove h now
  | clear => exact Store.Each.clear s

theorem Store.Reaches.each (hP : Collection.KeptOr lib P P) {s s' : Store} (hr : s.Reaches lib s')
    (h : s.Each P) : s'.Each P := by
  induction hr with
  | refl => exact h
  | tail _ hm ih => exact hm.each hP ih

theorem Db.each_run (hP : Collection.KeptOr lib P P) {ctx : Ctx} {storage : LogStore} {config : Config}
    {db : Db} (h : (build lib ctx storage config).1 = .ok db) (calls : List (Ctx × Call)) :
    (db.run lib calls).Each P :=
  Store.Reaches.each hP
    (Relation.ReflTransGen.trans (reaches_build h) (Reaches.of_run lib db calls))
    Store.Each.empty

end LatLng.Core
