import LatLng.Core.FieldIndexes
import LatLng.Core.Queries
import LatLng.Core.Sample
import LatLng.Index.Pagination

/-! Whether SCAN and SEARCH find through the field indexes what a full evaluation finds. The
indexes list numbers and texts apart, while the filters convert between them; the indexed
evaluation is complete exactly when every object the filters accept is listed under a value
that the lookup asks for. -/

namespace LatLng.Core

open Geo Index Geofence Storage Std List FieldIndexes

variable {lib : Lib} (q : QueryLib)

/-! ### What is looked up -/

inductive FieldFilter where
  | single (filter : WhereFilter)
  | among (filter : WhereInFilter)

def fieldFilters (options : SearchOptions) : List FieldFilter :=
  options.whereFilters.map .single ++ options.whereInFilters.map .among

namespace FieldFilter

def field : FieldFilter → String
  | .single filter => filter.field
  | .among filter => filter.field

def served : FieldFilter → Bool
  | .single filter => isTopLevelField filter.field && !whereFilterMatchesZero q filter
  | .among filter => isTopLevelField filter.field && !filter.values.any (parsesToZero q)

def looksUp : FieldFilter → IndexKey → Bool
  | .single ⟨_, .range min max⟩, .number n =>
    (F64.totalCmp min n).isLE && (F64.totalCmp n max).isLE
  | .single ⟨_, .equalsText expected⟩, .text s => s == expected
  | .among filter, .text s => filter.values.contains s
  | .among filter, .number n => filter.values.any fun value => q.parseF64 value == some n
  | _, _ => false

variable (indexes : FieldIndexes)

/-- A range over a field for which no number is listed is left to the full evaluation, except on
the fast path. -/
def used (filter : FieldFilter) : Bool :=
  filter.served q && match filter with
    | .single ⟨field, .range _ _⟩ => indexes.numeric[field]?.isSome
    | _ => true

def inverted : FieldFilter → Bool
  | .single ⟨field, .range min max⟩ => match indexes.numeric[field]? with
    | some values => !values.isEmpty && F64.totalCmp min max == .gt
    | none => false
  | _ => false

def Finds (filter : FieldFilter) (id : String) : Prop :=
  ∃ key, filter.looksUp q key = true ∧ indexes.Lists filter.field key id

end FieldFilter

instance (indexes : FieldIndexes) (field : String) (key : IndexKey) (id : String) :
    Decidable (indexes.Lists field key id) :=
  match key with
  | .number n => inferInstanceAs (Decidable (id ∈ idsAt indexes.numeric field n))
  | .text s => inferInstanceAs (Decidable (id ∈ idsAt indexes.text field s))

/-! ### The lookups -/

section Lookups

variable {q} {indexes : FieldIndexes} {objects : ExtTreeMap String Object} {field id : String}

theorem mem_textIds {value : String} :
    id ∈ indexes.textIds field value ↔ indexes.Lists field (.text value) id := by
  rw [textIds, FieldIndexes.Lists, idsAt]
  cases indexes.text[field]? with
  | none => simp
  | some values => rfl

theorem mem_numericIds {number : F64} :
    id ∈ indexes.numericIds field number ↔ indexes.Lists field (.number number) id := by
  rw [numericIds, FieldIndexes.Lists, idsAt]
  cases indexes.numeric[field]? with
  | none => simp
  | some values => rfl

open FieldFilter

theorem not_skipped {filter : WhereFilter} : (single filter).served q = true ↔
    (!isTopLevelField filter.field || whereFilterMatchesZero q filter) = false := by
  simp [served]

theorem skipped {filter : WhereFilter} : (single filter).served q = false ↔
    (!isTopLevelField filter.field || whereFilterMatchesZero q filter) = true := by
  rw [← Bool.not_eq_true, not_skipped, Bool.not_eq_false]

theorem finds_range {min max : F64} :
    (single ⟨field, .range min max⟩).Finds q indexes id ↔
      ∃ n, ((F64.totalCmp min n).isLE && (F64.totalCmp n max).isLE) ∧
        indexes.Lists field (.number n) id := by
  constructor
  · rintro ⟨_ | _, hlooks, hlists⟩
    · exact ⟨_, hlooks, hlists⟩
    · simp [looksUp] at hlooks
  · rintro ⟨n, hlooks, hlists⟩
    exact ⟨.number n, hlooks, hlists⟩

theorem finds_equalsText {expected : String} :
    (single ⟨field, .equalsText expected⟩).Finds q indexes id ↔
      id ∈ indexes.textIds field expected := by
  rw [mem_textIds]
  constructor
  · rintro ⟨_ | s, hlooks, hlists⟩
    · simp [looksUp] at hlooks
    · have hs : s = expected := by simpa [looksUp] using hlooks
      subst hs
      exact hlists
  · intro hlists
    exact ⟨.text expected, by simp [looksUp], hlists⟩

theorem not_finds_of_none {min max : F64} (hvalues : indexes.numeric[field]? = none) (id : String) :
    ¬ (single ⟨field, .range min max⟩).Finds q indexes id := by
  rw [finds_range]
  rintro ⟨n, -, hlists⟩
  rw [FieldIndexes.Lists, idsAt, hvalues] at hlists
  simp at hlists

theorem nodup_ids (ids : ExtTreeSet String) : ids.toList.Nodup :=
  ExtTreeSet.distinct_toList.imp fun hne heq => hne (by rw [heq]; exact ReflCmp.compare_self)

def Returns {α : Type} (quiet : Prop) (answer : Except Panic α) (good : α → Prop) : Prop :=
  ¬ quiet ∧ answer = .error .rangeStartAfterEnd ∨ quiet ∧ ∃ a, answer = .ok a ∧ good a

section Returns

variable {α β : Type} {quiet : Prop} {answer : Except Panic α} {good : α → Prop}

theorem Returns.ok {a : α} (hquiet : quiet) (hgood : good a) : Returns quiet (.ok a) good :=
  .inr ⟨hquiet, a, rfl, hgood⟩

theorem Returns.map {f : α → β} {good' : β → Prop} (h : Returns quiet answer good)
    (hgood : ∀ a, good a → good' (f a)) : Returns quiet (answer.map f) good' := by
  rcases h with ⟨hbad, rfl⟩ | ⟨hquiet, a, rfl, ha⟩
  · exact .inl ⟨hbad, rfl⟩
  · exact .ok hquiet (hgood a ha)

theorem Returns.exists_iff (h : Returns quiet answer good) : (∃ a, answer = .ok a) ↔ quiet := by
  rcases h with ⟨hbad, rfl⟩ | ⟨hquiet, a, rfl, -⟩
  · exact iff_of_false nofun hbad
  · exact iff_of_true ⟨a, rfl⟩ hquiet

end Returns

theorem rangeIds_returns (hbacked : Backed objects indexes)
    {values : ExtTreeMap F64 (ExtTreeSet String) F64.totalCmp}
    (hvalues : indexes.numeric[field]? = some values) (min max : F64) :
    Returns ((single ⟨field, .range min max⟩).inverted indexes = false)
      (rangeIds values min max) fun ids => ids.Nodup ∧
        ∀ id, id ∈ ids ↔ (single ⟨field, .range min max⟩).Finds q indexes id := by
  have hlists : ∀ {n : F64} {ids : ExtTreeSet String compare} {id : String}, (n, ids) ∈ values.toList →
      id ∈ ids → indexes.Lists field (.number n) id := by
    intro n ids id hmem hid
    have hset := ExtTreeMap.mem_toList_iff_getElem?_eq_some.1 hmem
    simpa [FieldIndexes.Lists, idsAt, hvalues, hset] using hid
  rw [inverted, hvalues, rangeIds]
  dsimp only
  cases !values.isEmpty && F64.totalCmp min max == .gt with
  | true => exact .inl ⟨Bool.noConfusion, rfl⟩
  | false =>
    refine .ok rfl ⟨?_, fun id => ?_⟩
    · rw [idsBetween, nodup_flatMap]
      refine ⟨fun entry _ => nodup_ids entry.2, ?_⟩
      have hkeys : (values.toList.filter fun entry =>
          (F64.totalCmp min entry.1).isLE && (F64.totalCmp entry.1 max).isLE).Pairwise
            fun a b => ¬ F64.totalCmp a.1 b.1 = .eq :=
        ExtTreeMap.distinct_keys_toList.sublist filter_sublist
      refine hkeys.imp_of_mem fun {a b} ha hb hne => ?_
      intro id hida hidb
      rw [ExtTreeSet.mem_toList] at hida hidb
      -- an id under two numbers would be an object with two values for the field
      obtain ⟨object, ho, value, hvalue, hkey⟩ :=
        hbacked id field _ (hlists (mem_filter.1 ha).1 hida)
      obtain ⟨object', ho', value', hvalue', hkey'⟩ :=
        hbacked id field _ (hlists (mem_filter.1 hb).1 hidb)
      cases ho.symm.trans ho'
      cases hvalue.symm.trans hvalue'
      have hsame : a.1 = b.1 := IndexKey.number.inj (hkey.symm.trans hkey')
      rw [hsame] at hne
      exact hne ReflCmp.compare_self
    · rw [finds_range]
      simp only [idsBetween, mem_flatMap, mem_filter, ExtTreeSet.mem_toList]
      constructor
      · rintro ⟨⟨n, set⟩, ⟨hmem, hrange⟩, hid⟩
        exact ⟨n, hrange, hlists hmem hid⟩
      · rintro ⟨n, hrange, hid⟩
        rw [FieldIndexes.Lists, idsAt, hvalues, Option.getD_some] at hid
        cases hset : values[n]? with
        | none =>
          rw [hset] at hid
          simp at hid
        | some set =>
          rw [hset] at hid
          exact ⟨(n, set), ⟨ExtTreeMap.mem_toList_iff_getElem?_eq_some.2 hset, hrange⟩, hid⟩

theorem visitWhereFilterIds_cases (hbacked : Backed objects indexes) (filter : WhereFilter) :
    (single filter).served q = false ∧
      indexes.visitWhereFilterIds q filter = .ok none ∨
    (single filter).served q ∧
      Returns ((single filter).inverted indexes = false)
        (indexes.visitWhereFilterIds q filter) fun found => ∃ ids, found = some ids ∧ ids.Nodup ∧
          ∀ id, id ∈ ids ↔ (single filter).Finds q indexes id := by
  cases hserved : (single filter).served q with
  | false =>
    rw [visitWhereFilterIds, skipped.1 hserved]
    exact .inl ⟨rfl, rfl⟩
  | true =>
    refine .inr ⟨rfl, ?_⟩
    obtain ⟨field, comparison⟩ := filter
    rw [visitWhereFilterIds, not_skipped.1 hserved]
    cases comparison with
    | range min max =>
      cases hvalues : indexes.numeric[field]? with
      | none =>
        refine .ok (by simp [inverted, hvalues]) ⟨[], by simp, nodup_nil, ?_⟩
        intro id
        simpa using not_finds_of_none hvalues id
      | some values =>
        exact (rangeIds_returns hbacked hvalues min max).map fun ids hids => ⟨ids, rfl, hids⟩
    | equalsText expected =>
      refine .ok rfl ⟨_, rfl, nodup_ids _, fun id => ?_⟩
      rw [ExtTreeSet.mem_toList, finds_equalsText]
    | regex pattern => simp [served, whereFilterMatchesZero] at hserved

theorem idsForWhereFilter_cases (hbacked : Backed objects indexes) (filter : WhereFilter) :
    (single filter).used q indexes = false ∧
      indexes.idsForWhereFilter q filter = .ok none ∨
    (single filter).used q indexes ∧
      Returns ((single filter).inverted indexes = false)
        (indexes.idsForWhereFilter q filter) fun found => ∃ ids, found = some ids ∧
          ∀ id, id ∈ ids ↔ (single filter).Finds q indexes id := by
  cases hserved : (single filter).served q with
  | false =>
    left
    rw [idsForWhereFilter, skipped.1 hserved]
    exact ⟨by simp [used, hserved], rfl⟩
  | true =>
    obtain ⟨field, comparison⟩ := filter
    rw [idsForWhereFilter, not_skipped.1 hserved]
    cases comparison with
    | range min max =>
      cases hvalues : indexes.numeric[field]? with
      | none => exact .inl ⟨by simp [used, hvalues], by simp⟩
      | some values =>
        refine .inr ⟨by simp [used, hserved, hvalues], ?_⟩
        refine (rangeIds_returns (q := q) hbacked hvalues min max).map fun ids hids =>
          ⟨.ofList ids, rfl, ?_⟩
        simpa using hids.2
    | equalsText expected =>
      exact .inr ⟨by simp [used, hserved], .ok rfl ⟨_, rfl, fun id => finds_equalsText.symm⟩⟩
    | regex pattern => simp [served, whereFilterMatchesZero] at hserved

variable (indexes) in
theorem idsForWhereInFilter_cases (filter : WhereInFilter) :
    ((among filter).served q = false ∧ indexes.idsForWhereInFilter q filter = none) ∨
    ((among filter).served q ∧
      ∃ ids, indexes.idsForWhereInFilter q filter = some ids ∧
        ∀ id, id ∈ ids ↔ (among filter).Finds q indexes id) := by
  cases hserved : (among filter).served q with
  | false =>
    left
    refine ⟨rfl, ?_⟩
    unfold idsForWhereInFilter
    rw [if_pos]
    cases htop : isTopLevelField filter.field <;>
      simp_all [served]
  | true =>
    right
    refine ⟨rfl, .ofList (indexes.idsAmong q filter), ?_, ?_⟩
    · unfold idsForWhereInFilter
      rw [if_neg (by simp_all [served])]
    · intro id
      simp only [idsAmong, ExtTreeSet.mem_ofList, contains_iff_mem, mem_append,
        mem_flatMap, ExtTreeSet.mem_toList, mem_textIds]
      constructor
      · rintro (⟨value, hvalue, hlists⟩ | ⟨value, hvalue, hnumber⟩)
        · exact ⟨.text value, by simpa [looksUp] using hvalue, hlists⟩
        · cases hparse : q.parseF64 value with
          | none => simp [hparse] at hnumber
          | some number =>
            rw [hparse] at hnumber
            have hid : id ∈ indexes.numericIds filter.field number := by simpa using hnumber
            refine ⟨.number number, ?_, mem_numericIds.1 hid⟩
            exact any_eq_true.2 ⟨value, hvalue, by simp [hparse]⟩
      · rintro ⟨number | s, hlooks, hlists⟩
        · obtain ⟨value, hvalue, hparse⟩ := any_eq_true.1 hlooks
          refine .inr ⟨value, hvalue, ?_⟩
          have hid : id ∈ indexes.numericIds filter.field number := mem_numericIds.2 hlists
          rw [eq_of_beq hparse]
          simpa using hid
        · exact .inl ⟨s, by simpa [looksUp] using hlooks, hlists⟩

/-! ### All filters of a search -/

def Admits (selected : Option (ExtTreeSet String)) (id : String) : Prop :=
  ∀ ids ∈ selected, id ∈ ids

theorem admits_intersectSelected {selected : Option (ExtTreeSet String)} {ids : ExtTreeSet String} :
    Admits (intersectSelected selected ids) id ↔ Admits selected id ∧ id ∈ ids := by
  cases selected with
  | none => simp [Admits, intersectSelected]
  | some existing => simp [Admits, intersectSelected, ExtTreeSet.mem_filter]

theorem selectWhere_returns (hbacked : Backed objects indexes)
    (selected : Option (ExtTreeSet String)) (filters : List WhereFilter) :
    Returns (∀ filter ∈ filters, (single filter).used q indexes →
        (single filter).inverted indexes = false)
      (indexes.selectWhere q selected filters) fun selected' => ∀ id,
        Admits selected' id ↔ Admits selected id ∧
          ∀ filter ∈ filters, (single filter).used q indexes →
            (single filter).Finds q indexes id := by
  induction filters generalizing selected with
  | nil => exact .ok (by simp) (by simp)
  | cons filter filters ih =>
    simp only [forall_mem_cons]
    rw [selectWhere]
    rcases idsForWhereFilter_cases (q := q) hbacked filter with
      ⟨hused, hids⟩ | ⟨hused, ⟨hinv, hids⟩ | ⟨hinv, _, hids, ids, rfl, hfinds⟩⟩ <;> rw [hids]
    · change Returns _ (indexes.selectWhere q selected filters) _
      simpa [hused] using ih selected
    · exact .inl ⟨fun hall => hinv (hall.1 hused), rfl⟩
    · change Returns _ (indexes.selectWhere q (intersectSelected selected ids) filters) _
      have hrest := ih (intersectSelected selected ids)
      simp only [admits_intersectSelected, hfinds] at hrest
      simpa [hused, hinv, and_assoc] using hrest

variable (indexes) in
theorem admits_selectWhereIn (selected : Option (ExtTreeSet String))
    (filters : List WhereInFilter) (id : String) :
    Admits (indexes.selectWhereIn q selected filters) id ↔ Admits selected id ∧
      ∀ filter ∈ filters, (among filter).served q →
        (among filter).Finds q indexes id := by
  induction filters generalizing selected with
  | nil => simp [selectWhereIn]
  | cons filter filters ih =>
    simp only [mem_cons, forall_eq_or_imp]
    rcases idsForWhereInFilter_cases (q := q) indexes filter with
      ⟨hserved, hids⟩ | ⟨hserved, ids, hids, hfinds⟩
    · rw [selectWhereIn, hids]
      simpa [hserved] using ih selected
    · rw [selectWhereIn, hids]
      have hrest := ih (intersectSelected selected ids)
      rw [admits_intersectSelected, hfinds] at hrest
      simpa [hserved, and_assoc] using hrest

theorem forall_fieldFilters {options : SearchOptions} {P : FieldFilter → Prop} :
    (∀ filter ∈ fieldFilters options, P filter) ↔
      (∀ filter ∈ options.whereFilters, P (.single filter)) ∧
        ∀ filter ∈ options.whereInFilters, P (.among filter) := by
  simp [fieldFilters, or_imp, forall_and]

theorem used_among {filter : WhereInFilter} :
    (among filter).used q indexes = (among filter).served q := by
  simp [used]

theorem candidateIds_returns (hbacked : Backed objects indexes) (options : SearchOptions) :
    Returns (∀ filter ∈ fieldFilters options, filter.used q indexes →
        filter.inverted indexes = false)
      (indexes.candidateIds q options) fun ids => (∀ list ∈ ids, list.Nodup) ∧
        ∀ id, (∀ list ∈ ids, id ∈ list) ↔
          ∀ filter ∈ fieldFilters options, filter.used q indexes →
            filter.Finds q indexes id := by
  have hquiet : ∀ filter ∈ options.whereInFilters, (among filter).served q = true →
      (among filter).inverted indexes = false := fun _ _ _ => rfl
  simp only [forall_fieldFilters, used_among, and_iff_left hquiet]
  refine (selectWhere_returns hbacked none options.whereFilters).map fun selected hadmits => ?_
  refine ⟨fun list hlist => ?_, fun id => ?_⟩
  · obtain ⟨ids, -, rfl⟩ := Option.map_eq_some_iff.1 hlist
    exact nodup_ids ids
  · have hin := admits_selectWhereIn (q := q) indexes selected options.whereInFilters id
    rw [hadmits] at hin
    have hnone : Admits none id := by simp [Admits]
    simpa [Admits, hnone] using hin

theorem visitWhere_cases (hbacked : Backed objects indexes) (filters : List WhereFilter) :
    (filters.map single).find? (·.served q) = none ∧
      indexes.visitWhere q filters = .ok none ∨
    ∃ filter, (filters.map single).find? (·.served q) = some filter ∧
      Returns (filter.inverted indexes = false) (indexes.visitWhere q filters) fun found =>
        ∃ ids, found = some ids ∧ ids.Nodup ∧ ∀ id, id ∈ ids ↔ filter.Finds q indexes id := by
  induction filters with
  | nil => exact .inl ⟨rfl, rfl⟩
  | cons filter filters ih =>
    rw [map_cons, find?_cons]
    rcases visitWhereFilterIds_cases (q := q) hbacked filter with
      ⟨hserved, hids⟩ | ⟨hserved, ⟨hinv, hids⟩ | ⟨hinv, _, hids, ids, rfl, hrest⟩⟩ <;>
      rw [hserved, visitWhere, hids]
    · exact ih
    · exact .inr ⟨_, rfl, .inl ⟨hinv, rfl⟩⟩
    · exact .inr ⟨_, rfl, .ok hinv ⟨ids, rfl, hrest⟩⟩

theorem visitCandidateIds_cases (hbacked : Backed objects indexes) (options : SearchOptions) :
    (fieldFilters options).find? (·.served q) = none ∧
      indexes.visitCandidateIds q options = .ok none ∨
    ∃ filter, (fieldFilters options).find? (·.served q) = some filter ∧
      Returns (filter.inverted indexes = false) (indexes.visitCandidateIds q options) fun found =>
        ∃ ids, found = some ids ∧ ids.Nodup ∧ ∀ id, id ∈ ids ↔ filter.Finds q indexes id := by
  rw [fieldFilters, find?_append]
  rcases visitWhere_cases (q := q) hbacked options.whereFilters with
    ⟨hnone, hvisit⟩ | ⟨filter, hfind, hreturns⟩
  · rw [hnone, visitCandidateIds, hvisit, Option.none_or]
    induction options.whereInFilters with
    | nil => exact .inl ⟨rfl, rfl⟩
    | cons filter filters ih =>
      rw [map_cons, find?_cons]
      rcases idsForWhereInFilter_cases (q := q) indexes filter with
        ⟨hserved, hids⟩ | ⟨hserved, ids, hids, hfinds⟩
      · simp only [findSome?_cons, hids, Option.map_none, hserved]
        exact ih
      · simp only [findSome?_cons, hids, Option.map_some, hserved]
        refine .inr ⟨_, rfl, .ok rfl ⟨ids.toList, rfl, nodup_ids ids, fun id => ?_⟩⟩
        rw [ExtTreeSet.mem_toList, hfinds]
  · rw [hfind, visitCandidateIds]
    refine .inr ⟨filter, rfl, ?_⟩
    rcases hreturns with ⟨hinv, hvisit⟩ | ⟨hinv, _, hvisit, ids, rfl, hrest⟩ <;> rw [hvisit]
    · exact .inl ⟨hinv, rfl⟩
    · exact .ok hinv ⟨ids, rfl, hrest⟩

end Lookups

/-! ### What a full evaluation finds -/

namespace Collection

variable (c : Collection)

def acceptedAmong (now : Nat) (options : SearchOptions) (stringOnly : Bool) (ids : List String) :
    List Object :=
  (c.visibleObjects now stringOnly ids).filter (accepts q.toFilterLib options)

/-- The unexpired objects, for SEARCH only the strings, for which the evaluator returns true. -/
def accepted (now : Nat) (options : SearchOptions) (stringOnly : Bool) : List Object :=
  c.acceptedAmong q now options stringOnly c.objects.keys

def foundBy (filter : FieldFilter) (object : Object) : Bool :=
  match object.fields[filter.field]? with
  | none => false
  | some value => filter.looksUp q (indexKey value) &&
    decide (c.fieldIndexes.Lists filter.field (indexKey value) object.id)

variable {q c} {now : Nat} {options : SearchOptions} {stringOnly : Bool} {ids : List String}
  {object : Object}

theorem mem_acceptedAmong : object ∈ c.acceptedAmong q now options stringOnly ids ↔
    (∃ id ∈ ids, c.objects[id]? = some object) ∧ visible now stringOnly object ∧
      accepts q.toFilterLib options object = true := by
  rw [acceptedAmong, mem_filter, visibleObjects, mem_filter, mem_filterMap, and_assoc]

theorem Fielded.getElem_of_mem_accepted (h : c.Fielded)
    (ho : object ∈ c.accepted q now options stringOnly) : c.objects[object.id]? = some object := by
  obtain ⟨⟨id, -, hid⟩, -⟩ := mem_acceptedAmong.1 ho
  rw [h.ids id object hid]
  exact hid

theorem Fielded.mem_acceptedAmong_iff (h : c.Fielded) :
    object ∈ c.acceptedAmong q now options stringOnly ids ↔
      object ∈ c.accepted q now options stringOnly ∧ object.id ∈ ids := by
  rw [accepted, mem_acceptedAmong, mem_acceptedAmong]
  constructor
  · rintro ⟨⟨id, hmem, hid⟩, hrest⟩
    have heq := h.ids id object hid
    have hkey : id ∈ c.objects.keys := by
      rw [ExtTreeMap.mem_keys, ExtTreeMap.mem_iff_isSome_getElem?, hid]
      rfl
    exact ⟨⟨⟨id, hkey, hid⟩, hrest⟩, by rw [heq]; exact hmem⟩
  · rintro ⟨⟨⟨id, -, hid⟩, hrest⟩, hmem⟩
    have heq := h.ids id object hid
    exact ⟨⟨id, by rw [← heq]; exact hmem, hid⟩, hrest⟩

theorem Fielded.nodup_acceptedAmong (h : c.Fielded) (hids : ids.Nodup) :
    ((c.acceptedAmong q now options stringOnly ids).map Object.id).Nodup := by
  have hall : ((ids.filterMap fun id => c.objects[id]?).map Object.id).Nodup :=
    hids.sublist (h.ids_sublist ids)
  exact hall.sublist ((filter_sublist.trans filter_sublist).map _)

theorem Fielded.acceptedAmong_perm (h : c.Fielded) (hids : ids.Nodup) :
    (c.acceptedAmong q now options stringOnly ids).Perm
      ((c.accepted q now options stringOnly).filter fun object => object.id ∈ ids) := by
  have hnodup : ∀ {ids : List String}, ids.Nodup →
      (c.acceptedAmong q now options stringOnly ids).Nodup :=
    fun hids => List.Nodup.of_map _ (h.nodup_acceptedAmong hids)
  refine (perm_ext_iff_of_nodup (hnodup hids)
    ((hnodup ExtTreeMap.nodup_keys).filter _)).2 fun object => ?_
  rw [h.mem_acceptedAmong_iff, mem_filter, decide_eq_true_iff]
  rfl

theorem Fielded.acceptedAmong_perm_iff (h : c.Fielded) (hids : ids.Nodup) :
    (c.acceptedAmong q now options stringOnly ids).Perm (c.accepted q now options stringOnly) ↔
      ∀ object ∈ c.accepted q now options stringOnly, object.id ∈ ids := by
  constructor
  · intro hperm object hobject
    exact (h.mem_acceptedAmong_iff.1 (hperm.mem_iff.2 hobject)).2
  · intro hall
    have hperm := @acceptedAmong_perm q _ now options stringOnly ids h hids
    rwa [filter_eq_self.2 fun o ho => decide_eq_true (hall o ho)] at hperm

theorem Fielded.finds_iff (h : c.Fielded) (ho : c.objects[object.id]? = some object)
    (filter : FieldFilter) :
    filter.Finds q c.fieldIndexes object.id ↔ c.foundBy q filter object = true := by
  rw [foundBy]
  constructor
  · rintro ⟨key, hlooks, hlists⟩
    obtain ⟨stored, hs, value, hvalue, rfl⟩ := h.backed _ _ _ hlists
    cases ho.symm.trans hs
    rw [hvalue]
    simp [hlooks, hlists]
  · intro hfound
    cases hvalue : object.fields[filter.field]? with
    | none =>
      rw [hvalue] at hfound
      cases hfound
    | some value =>
      rw [hvalue] at hfound
      have hboth : filter.looksUp q (indexKey value) = true ∧
          c.fieldIndexes.Lists filter.field (indexKey value) object.id := by simpa using hfound
      exact ⟨indexKey value, hboth⟩

/-! ### What an indexed evaluation finds -/

section Validated

variable (hvalid : options.validate q.toFilterLib = .ok ())

include hvalid

theorem visitIds_eq (n : Nat) (ids : List String) :
    c.visitIds q now stringOnly options n ids =
      .ok (((c.acceptedAmong q now options stringOnly ids).take n).map fun o => idItem (bare o)) := by
  rw [acceptedAmong, visibleObjects, filter_filter]
  refine LatLng.Lib.visit_eq_take (c.visitIds q now stringOnly options)
    (fun ids => by cases ids <;> rfl) (fun n => by cases n <;> rfl) (fun n id _ rest => ?_) n
  rw [visitIds]
  cases c.objects[id]? with
  | none => rfl
  | some object =>
    dsimp only
    rw [matchesCandidate_eq hvalid]
    cases hv : visible now stringOnly object <;> cases ha : accepts q.toFilterLib options object <;>
      cases c.visitIds q now stringOnly options n rest <;>
        simp [Option.filter, hv, ha, bind, Except.bind, Except.map]

theorem filterCandidates_visible (ids : List String) :
    filterCandidates q options ((c.visibleObjects now stringOnly ids).map bare) =
      .ok ((c.acceptedAmong q now options stringOnly ids).map bare) := by
  rw [filterCandidates_eq hvalid, filter_map]
  rfl

theorem firstMatches_visible (n : Nat) (ids : List String) :
    firstMatches q options n ((c.visibleObjects now stringOnly ids).map bare) =
      .ok (((c.acceptedAmong q now options stringOnly ids).take n).map
        fun o => idItem (bare o)) := by
  rw [firstMatches_eq hvalid, filter_map, ← map_take, map_map]
  rfl

end Validated

/-- The candidates of an indexed evaluation hold an accepted object exactly if every filter that
the indexes serve finds it. -/
theorem Fielded.scanCandidates_returns (h : c.Fielded) (ctx : Ctx) (options : SearchOptions)
    (stringOnly : Bool) :
    Returns (∀ filter ∈ fieldFilters options, filter.used q c.fieldIndexes →
        filter.inverted c.fieldIndexes = false)
      (c.scanCandidates q ctx options stringOnly) fun candidates => ∃ ids : List String,
        ids.Nodup ∧ candidates = (c.visibleObjects ctx.nowMs stringOnly ids).map bare ∧
        ∀ object ∈ c.accepted q ctx.nowMs options stringOnly, object.id ∈ ids ↔
          ∀ filter ∈ fieldFilters options, filter.used q c.fieldIndexes →
            c.foundBy q filter object = true := by
  refine (candidateIds_returns h.backed options).map fun ids ⟨hnodup, hfinds⟩ =>
    ⟨ids.getD (ctx.order c.objects.keys), ?_, rfl, fun object hobject => ?_⟩
  · cases ids with
    | none => exact (ctx.order_perm _).nodup_iff.2 ExtTreeMap.nodup_keys
    | some list => exact hnodup list rfl
  · have hstored := h.getElem_of_mem_accepted hobject
    have hall : object.id ∈ ids.getD (ctx.order c.objects.keys) ↔
        ∀ list ∈ ids, object.id ∈ list := by
      cases ids with
      | none =>
        have hkey : object.id ∈ c.objects.keys := by
          rw [ExtTreeMap.mem_keys, ExtTreeMap.mem_iff_isSome_getElem?, hstored]
          rfl
        simpa [(ctx.order_perm _).mem_iff] using hkey
      | some list => simp
    rw [hall, hfinds]
    simp only [h.finds_iff hstored]

/-- In limited-ids mode the ids of the first filter that the indexes serve are looked at, or
those of all objects; the answer ends when it is full. -/
theorem Fielded.scan_fast (lib : GeoLib) (h : c.Fielded)
    (hvalid : options.validate q.toFilterLib = .ok ()) (hfast : options.fastLimitedIds)
    (ctx : Ctx) (stringOnly : Bool) :
    Returns (∀ filter, (fieldFilters options).find? (·.served q) = some filter →
        filter.inverted c.fieldIndexes = false)
      (c.scan q lib ctx options stringOnly) fun answer => ∃ ids : List String,
        answer = .ok (idResults (((c.acceptedAmong q ctx.nowMs options stringOnly ids).take
          (pageLimit options)).map fun o => idItem (bare o))) ∧ ids.Nodup ∧
        ∀ object ∈ c.accepted q ctx.nowMs options stringOnly, object.id ∈ ids ↔
          ∀ filter, (fieldFilters options).find? (·.served q) = some filter →
            c.foundBy q filter object = true := by
  rw [scan, fastIndexedResults, hfast]
  rcases visitCandidateIds_cases (q := q) h.backed options with
    ⟨hnone, hvisit⟩ | ⟨filter, hsome, ⟨hinv, hvisit⟩ | ⟨hinv, _, hvisit, ids, rfl, hids, hfinds⟩⟩
  · -- no filter is looked up, and the whole collection is evaluated
    have hunused : ∀ filter ∈ fieldFilters options, filter.used q c.fieldIndexes ≠ true := by
      intro filter hmem
      have hserved := find?_eq_none.1 hnone filter hmem
      simp [FieldFilter.used, hserved]
    rcases h.scanCandidates_returns (q := q) ctx options stringOnly with
      ⟨hbad, -⟩ | ⟨-, _, hcandidates, ids, hids, rfl, hfound⟩
    · exact absurd (fun filter hmem hused => absurd hused (hunused filter hmem)) hbad
    · refine .inr ⟨by simp [hnone], _, ?_, ids, rfl, hids, fun object hobject =>
        iff_of_true ((hfound object hobject).2 fun filter hmem hused =>
          absurd hused (hunused filter hmem)) (by simp [hnone])⟩
      simp only [hvisit, Bool.not_true, Bool.false_eq_true, if_false, bind, Except.bind,
        hcandidates, applySearchOptions, hfast, if_true, applyFastLimitedIds,
        firstMatches_visible hvalid]
      rfl
  · -- the lookup does not return
    refine .inl ⟨fun hquiet => hinv (hquiet filter hsome), ?_⟩
    rw [hvisit]
    rfl
  · refine .inr ⟨fun other hother => ?_, _, ?_, ids, rfl, hids, fun object hobject => ?_⟩
    · cases hsome.symm.trans hother
      exact hinv
    · simp only [hvisit, Bool.not_true, Bool.false_eq_true, if_false, bind, Except.bind,
        visitIds_eq hvalid]
      rfl
    · rw [hfinds, h.finds_iff (h.getElem_of_mem_accepted hobject), hsome]
      simp

/-! ### Agreement -/

/-- Enough of the accepted objects are listed to fill the answer. A limit of 0 is raised to 1. -/
def Enough (limit listed total : Nat) : Prop :=
  if limit = 0 then listed = 0 else listed = total ∨ limit ≤ listed

variable (q c) in
def IndexSuffices (now : Nat) (options : SearchOptions) (stringOnly : Bool) : Prop :=
  let accepted := c.accepted q now options stringOnly
  if options.fastLimitedIds then
    match (fieldFilters options).find? (·.served q) with
    | none => Enough options.limit accepted.length accepted.length
    | some filter => filter.inverted c.fieldIndexes = false ∧
      Enough options.limit (accepted.countP (c.foundBy q filter)) accepted.length
  else
    ∀ filter ∈ fieldFilters options, filter.used q c.fieldIndexes = true →
      filter.inverted c.fieldIndexes = false ∧
        ∀ object ∈ accepted, c.foundBy q filter object = true

variable (q c) in
structure FirstOf (now : Nat) (options : SearchOptions) (stringOnly : Bool)
    (items : List SearchItem) : Prop where
  distinct : (items.map SearchItem.id).Nodup
  accepted : ∀ item ∈ items, ∃ object ∈ c.accepted q now options stringOnly, object.id = item.id
  enough : items.length = min options.limit (c.accepted q now options stringOnly).length

theorem Fielded.firstOf_iff (h : c.Fielded) (hids : ids.Nodup) :
    c.FirstOf q now options stringOnly
      (((c.acceptedAmong q now options stringOnly ids).take (pageLimit options)).map
        fun o => idItem (bare o)) ↔
      Enough options.limit
        ((c.accepted q now options stringOnly).countP fun object => object.id ∈ ids)
        (c.accepted q now options stringOnly).length := by
  have hlength : (c.acceptedAmong q now options stringOnly ids).length =
      (c.accepted q now options stringOnly).countP fun object => object.id ∈ ids := by
    rw [(h.acceptedAmong_perm hids).length_eq, countP_eq_length_filter]
  have hle := countP_le_length (p := fun object : Object => decide (object.id ∈ ids))
    (l := c.accepted q now options stringOnly)
  have hcount : (((c.acceptedAmong q now options stringOnly ids).take (pageLimit options)).map
      fun o => idItem (bare o)).length = min options.limit
        (c.accepted q now options stringOnly).length ↔ Enough options.limit
          ((c.accepted q now options stringOnly).countP fun object => object.id ∈ ids)
          (c.accepted q now options stringOnly).length := by
    rw [length_map, length_take, hlength, pageLimit, Enough]
    split <;> omega
  rw [← hcount]
  refine ⟨fun hfirst => hfirst.enough, fun henough => ⟨?_, ?_, henough⟩⟩
  · rw [map_map]
    exact (h.nodup_acceptedAmong hids).sublist ((take_sublist _ _).map _)
  · intro item hitem
    obtain ⟨object, hobject, rfl⟩ := mem_map.1 hitem
    exact ⟨object, (h.mem_acceptedAmong_iff.1 (mem_of_mem_take hobject)).1, rfl⟩

end Collection

namespace Db

variable {q} {db : Db} {ctx : Ctx} {collection : String} {cell : VersionedCollection}
  {options : SearchOptions}

variable (lib q db ctx collection cell options) in
/-- SCAN, or SEARCH, answers as the evaluation of the filters on the whole collection does. The
fast path may choose which objects it returns. -/
def ScanAgrees (stringOnly : Bool) : Prop :=
  let accepted := cell.collection.accepted q ctx.nowMs options stringOnly
  if options.fastLimitedIds then
    ∃ results, db.scanObjects q lib ctx collection options stringOnly = .ok (.ok results) ∧
      cell.collection.FirstOf q ctx.nowMs options stringOnly results.results
  else
    (∃ found : List Object, (cell.collection.scanCandidates q ctx options stringOnly).map
        (filterCandidates q options) = .ok (.ok (found.map bare)) ∧ found.Perm accepted) ∧
      db.scanObjects q lib ctx collection options stringOnly =
        .ok ((pageOf lib.toGeoLib q options (accepted.map bare) none false).mapError .index)

theorem scanObjects_eq (hvalid : options.validate q.toFilterLib = .ok ())
    (hcell : db.collections[collection]? = some cell) (stringOnly : Bool) :
    db.scanObjects q lib ctx collection options stringOnly =
      (cell.collection.scan q lib.toGeoLib ctx options stringOnly).map
        fun answer => answer.mapError .index := by
  rw [scanObjects, scanChecked, hvalid, existingCollectionHandle, hcell]

section Agreement

variable (hvalid : options.validate q.toFilterLib = .ok ())
  (hcell : db.collections[collection]? = some cell) (h : cell.collection.Fielded)

include hvalid hcell h

theorem scanAgrees_fast (hfast : options.fastLimitedIds) (stringOnly : Bool) :
    db.ScanAgrees lib q ctx collection cell options stringOnly ↔
      cell.collection.IndexSuffices q ctx.nowMs options stringOnly := by
  rw [ScanAgrees, Collection.IndexSuffices, if_pos hfast, if_pos hfast,
    scanObjects_eq hvalid hcell]
  rcases h.scan_fast lib.toGeoLib hvalid hfast ctx stringOnly with
    ⟨hbad, herr⟩ | ⟨hquiet, _, hscan, ids, rfl, hids, hlisted⟩
  · rw [herr]
    constructor
    · rintro ⟨results, hresults, -⟩
      cases hresults
    · intro hsuffices
      refine absurd (fun filter hsome => ?_) hbad
      rw [hsome] at hsuffices
      exact hsuffices.1
  · have hanswer : (∃ results, (cell.collection.scan q lib.toGeoLib ctx options stringOnly).map
          (fun answer => answer.mapError CoreError.index) = .ok (.ok results) ∧
        cell.collection.FirstOf q ctx.nowMs options stringOnly results.results) ↔
      Collection.Enough options.limit
        ((cell.collection.accepted q ctx.nowMs options stringOnly).countP
          fun object => object.id ∈ ids)
        (cell.collection.accepted q ctx.nowMs options stringOnly).length := by
      rw [← h.firstOf_iff hids, hscan]
      constructor
      · rintro ⟨results, hresults, hfirst⟩
        cases hresults
        exact hfirst
      · exact fun hfirst => ⟨_, rfl, hfirst⟩
    rw [hanswer]
    cases hfilter : (fieldFilters options).find? (·.served q) with
    | none =>
      have hall : (cell.collection.accepted q ctx.nowMs options stringOnly).countP
          (fun object => object.id ∈ ids) =
            (cell.collection.accepted q ctx.nowMs options stringOnly).length :=
        countP_eq_length.2 fun object hobject =>
          decide_eq_true ((hlisted object hobject).2 (by simp [hfilter]))
      rw [hall]
    | some filter =>
      have hcount : (cell.collection.accepted q ctx.nowMs options stringOnly).countP
          (fun object => object.id ∈ ids) =
            (cell.collection.accepted q ctx.nowMs options stringOnly).countP
              (cell.collection.foundBy q filter) := by
        refine countP_congr fun object hobject => ?_
        rw [decide_eq_true_iff, hlisted object hobject, hfilter]
        simp
      rw [hcount]
      exact (and_iff_right (hquiet filter hfilter)).symm

theorem scanAgrees_full (hfast : options.fastLimitedIds = false) (stringOnly : Bool) :
    db.ScanAgrees lib q ctx collection cell options stringOnly ↔
      cell.collection.IndexSuffices q ctx.nowMs options stringOnly := by
  rw [ScanAgrees, Collection.IndexSuffices, hfast, if_neg Bool.false_ne_true,
    if_neg Bool.false_ne_true, scanObjects_eq hvalid hcell]
  have hscan : cell.collection.scan q lib.toGeoLib ctx options stringOnly =
      (cell.collection.scanCandidates q ctx options stringOnly).map fun candidates =>
        applySearchOptions lib.toGeoLib q options candidates none false := by
    rw [Collection.scan, Collection.fastIndexedResults, hfast]
    rfl
  rw [hscan]
  rcases h.scanCandidates_returns (q := q) ctx options stringOnly with
    ⟨hbad, herr⟩ | ⟨hgood, _, hcandidates, ids, hids, rfl, hfound⟩
  · rw [herr]
    constructor
    · rintro ⟨⟨found, hfilter, -⟩, -⟩
      cases hfilter
    · exact fun hall => absurd (fun filter hmem hused => (hall filter hmem hused).1) hbad
  · have hfilter := @Collection.filterCandidates_visible q cell.collection ctx.nowMs options
      stringOnly hvalid ids
    rw [hcandidates]
    constructor
    · rintro ⟨⟨found, heq, hp⟩, -⟩ filter hmem hused
      have hfound' : found = cell.collection.acceptedAmong q ctx.nowMs options stringOnly ids := by
        change Except.ok (filterCandidates q options _) = _ at heq
        rw [hfilter] at heq
        have hmap := Except.ok.inj (Except.ok.inj heq)
        exact (map_injective_iff.2 (fun a b hab => congrArg SearchCandidate.object hab)
          hmap).symm
      rw [hfound'] at hp
      refine ⟨hgood filter hmem hused, fun object hobject => ?_⟩
      exact (hfound object hobject).1 ((h.acceptedAmong_perm_iff hids).1 hp object hobject) filter
        hmem hused
    · intro hall
      have hp := (h.acceptedAmong_perm_iff hids).2 fun object hobject => (hfound object hobject).2
        fun filter hmem hused => (hall filter hmem hused).2 object hobject
      refine ⟨⟨_, congrArg Except.ok hfilter, hp⟩, ?_⟩
      change Except.ok ((applySearchOptions lib.toGeoLib q options _ none false).mapError _) = _
      rw [applySearchOptions, hfast, if_neg Bool.false_ne_true, hfilter]
      change Except.ok ((pageOf lib.toGeoLib q options _ none false).mapError _) = _
      rw [pageOf_perm hp (h.nodup_acceptedAmong hids)]

end Agreement

end Db

/-- SCAN (`stringOnly = false`) and SEARCH (`stringOnly = true`) in every state that can be reached:
they answer as a full evaluation does exactly if the indexes suffice. -/
theorem scan_agrees_iff_index_suffices {ctx₀ : Ctx} {storage : LogStore} {config : Config} {db : Db}
    (hbuild : (build lib ctx₀ storage config).1 = .ok db) (calls : List (Ctx × Call)) (ctx : Ctx)
    {collection : String} {cell : VersionedCollection}
    (hcell : (db.run lib calls).collections[collection]? = some cell) {options : SearchOptions}
    (hvalid : options.validate q.toFilterLib = .ok ()) (stringOnly : Bool) :
    (db.run lib calls).ScanAgrees lib q ctx collection cell options stringOnly ↔
      cell.collection.IndexSuffices q ctx.nowMs options stringOnly := by
  have hfielded := Db.each_run (Collection.fielded_kept lib) hbuild calls collection cell hcell
  cases hfast : options.fastLimitedIds with
  | true => exact Db.scanAgrees_fast hvalid hcell hfielded hfast stringOnly
  | false => exact Db.scanAgrees_full hvalid hcell hfielded hfast stringOnly

/-! ### Lookups that return -/

/-- No range that is looked up ends before it starts. The fast path looks up the first filter
that the indexes can serve; otherwise every filter is looked up for which they hold values. -/
def Collection.LookupsReturn (c : Collection) (options : SearchOptions) : Prop :=
  if options.fastLimitedIds then
    ∀ filter, (fieldFilters options).find? (·.served q) = some filter →
      filter.inverted c.fieldIndexes = false
  else
    ∀ filter ∈ fieldFilters options, filter.used q c.fieldIndexes = true →
      filter.inverted c.fieldIndexes = false

variable {q}

variable (lib) in
theorem Collection.Fielded.scan_returns {c : Collection} (h : c.Fielded) (ctx : Ctx)
    {options : SearchOptions} (hvalid : options.validate q.toFilterLib = .ok ())
    (stringOnly : Bool) :
    (∃ answer, c.scan q lib.toGeoLib ctx options stringOnly = .ok answer) ↔
      c.LookupsReturn q options := by
  unfold Collection.LookupsReturn
  cases hfast : options.fastLimitedIds with
  | false =>
    -- without the fast path, the candidates decide
    have hscan : (∃ answer, c.scan q lib.toGeoLib ctx options stringOnly = .ok answer) ↔
        ∃ candidates, c.scanCandidates q ctx options stringOnly = .ok candidates := by
      rw [Collection.scan, Collection.fastIndexedResults, hfast]
      cases c.scanCandidates q ctx options stringOnly <;> simp [bind, Except.bind]
    rw [hscan, (h.scanCandidates_returns ctx options stringOnly).exists_iff]
    rfl
  | true =>
    rw [(h.scan_fast lib.toGeoLib hvalid hfast ctx stringOnly).exists_iff]
    rfl

/-- SCAN and SEARCH return, in every state that can be reached and for every accepted search,
exactly if every range that they look up does and the fast path gets room for its page. -/
theorem scan_search_return_iff {ctx₀ : Ctx} {storage : LogStore} {config : Config} {db : Db}
    (hbuild : (build lib ctx₀ storage config).1 = .ok db) (calls : List (Ctx × Call)) (ctx : Ctx)
    (collection : String) {options : SearchOptions}
    (hvalid : options.validate q.toFilterLib = .ok ()) (room : Nat) :
    (∀ stringOnly, ∃ answer, (db.run lib calls).scanObjectsReserving q lib ctx room collection
      options stringOnly = .ok answer) ↔
    ∀ cell, (db.run lib calls).collections[collection]? = some cell →
      cell.collection.LookupsReturn q options ∧
        (options.fastLimitedIds → pageLimit options ≤ room) := by
  cases hcell : (db.run lib calls).collections[collection]? with
  | none => simp [Db.scanObjectsReserving, Db.scanChecked, hvalid, Db.existingCollectionHandle, hcell]
  | some cell =>
    have hfielded := Db.each_run (Collection.fielded_kept lib) hbuild calls collection cell hcell
    simp only [Option.some.injEq, forall_eq']
    have hscan : ∀ stringOnly, (∃ answer, (db.run lib calls).scanObjectsReserving q lib ctx room
        collection options stringOnly = .ok answer) ↔ cell.collection.LookupsReturn q options ∧
          (options.fastLimitedIds = true → pageLimit options ≤ room) := by
      intro stringOnly
      rw [← hfielded.scan_returns lib ctx hvalid stringOnly]
      simp only [Db.scanObjectsReserving, Db.scanChecked, hvalid, Db.existingCollectionHandle, hcell,
        Collection.scanReserving, Collection.reserve]
      cases cell.collection.scan q lib.toGeoLib ctx options stringOnly <;>
        cases options.fastLimitedIds <;>
          by_cases hroom : room < pageLimit options <;>
            simp [hroom, Except.map, bind, Except.bind]
      all_goals omega
    exact (forall_congr' hscan).trans (forall_const Bool)

namespace Gauges

open Sample

def five : F64 := ⟨0x4014000000000000⟩

def gauges : QueryLib :=
  { Stops.plainQuery with
    parseF64 := fun text => if text = "5" then some five else none
    display := fun number => if number = five then "5" else "" }

def truck : Ctx × Call :=
  (sampleCtx, .request (.set
    { collection := "fleet", id := "truck", object := .string "idle"
      fields := [⟨"speed", .number five⟩, ⟨"state", .text "idle"⟩], expireSeconds := none
      condition := .always }))

def countEqual (field text : String) : SearchOptions :=
  { whereFilters := [⟨field, .equalsText text⟩], output := .count }

/-- The filter compares the number as the text "5"; the index looks among the texts only. -/
theorem number_not_found_as_text : ∃ db cell, (build blankLib sampleCtx {} {}).1 = .ok db ∧
    (db.run blankLib [truck]).collections["fleet"]? = some cell ∧
    (countEqual "speed" "5").validate gauges.toFilterLib = .ok () ∧
    (cell.collection.accepted gauges 1000 (countEqual "speed" "5") false).map Object.id =
      ["truck"] ∧
    (db.run blankLib [truck]).scan gauges blankLib sampleCtx "fleet" (countEqual "speed" "5") =
      .ok (.ok { results := [], cursor := 0, count := 0 }) ∧
    ¬ (db.run blankLib [truck]).ScanAgrees blankLib gauges sampleCtx "fleet" cell
      (countEqual "speed" "5") false := by
  refine ⟨_, _, rfl, rfl, rfl, ?_, ?_, ?_⟩
  · rfl
  · rfl
  rintro ⟨-, hanswer⟩
  -- the full evaluation counts the truck
  have hcount : (0 : Nat) = 1 := congrArg (fun answer =>
    (answer.toOption.bind Except.toOption).elim 2 SearchResults.count) hanswer
  cases hcount

/-- A text is found by a filter that compares it with itself. -/
theorem text_found_as_text : ∃ db cell, (build blankLib sampleCtx {} {}).1 = .ok db ∧
    (db.run blankLib [truck]).collections["fleet"]? = some cell ∧
    (cell.collection.accepted gauges 1000 (countEqual "state" "idle") false).map Object.id =
      ["truck"] ∧
    (db.run blankLib [truck]).ScanAgrees blankLib gauges sampleCtx "fleet" cell
      (countEqual "state" "idle") false := by
  refine ⟨_, _, rfl, rfl, ?_, ?_⟩
  · rfl
  refine (@scan_agrees_iff_index_suffices blankLib gauges sampleCtx {} {} _ rfl [truck] sampleCtx
    "fleet" _ rfl (countEqual "state" "idle") rfl false).2 ?_
  intro filter hmem hused
  cases mem_singleton.1 hmem
  exact ⟨rfl, all_eq_true.1 rfl⟩

def ten : F64 := ⟨0x4024000000000000⟩

def countBetween (min max : F64) : SearchOptions :=
  { whereFilters := [⟨"speed", .range min max⟩], output := .count }

def threeBetween (min max : F64) : SearchOptions :=
  { countBetween min max with output := .ids, nofields := true, includeCount := false, limit := 3 }

/-- Three ids at most of objects with a speed from five to ten, with room for as many. -/
theorem speeds_listed : ∃ db, (build blankLib sampleCtx {} {}).1 = .ok db ∧ ∀ stringOnly, ∃ answer,
    (db.run blankLib [truck]).scanObjectsReserving gauges blankLib sampleCtx 3 "fleet"
      (threeBetween five ten) stringOnly = .ok answer := by
  refine ⟨_, rfl, (@scan_search_return_iff blankLib gauges sampleCtx {} {} _ rfl [truck] sampleCtx
    "fleet" (threeBetween five ten) rfl 3).2 ?_⟩
  intro cell hcell
  cases hcell
  refine ⟨fun filter hfilter => ?_, fun _ => by decide⟩
  cases hfilter
  rfl

/-- Speeds from ten down to five: the filter is accepted, and the lookup panics. -/
theorem inverted_range_panics : ∃ db, (build blankLib sampleCtx {} {}).1 = .ok db ∧
    (countBetween ten five).validate gauges.toFilterLib = .ok () ∧ ∀ room stringOnly,
    (db.run blankLib [truck]).scanObjectsReserving gauges blankLib sampleCtx room "fleet"
      (countBetween ten five) stringOnly = .error .rangeStartAfterEnd :=
  ⟨_, rfl, rfl, fun _ stringOnly => by cases stringOnly <;> rfl⟩

end Gauges

end LatLng.Core
