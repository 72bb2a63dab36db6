import LatLng.Geofence.Evaluate

/-! What one mutation does to each fence of a registry. The name indexes list exactly the
fences of a collection, so every fence a mutation concerns is evaluated once, and a fence that
is not evaluated has nothing to do. -/

namespace LatLng.Geofence

open Geo Index Std List

/-! ### Name indexes -/

theorem mem_pushIndexName (index : NameIndex) (collection name c n : String) :
    n ∈ (pushIndexName index collection name)[c]?.getD [] ↔
      n ∈ index[c]?.getD [] ∨ collection = c ∧ n = name := by
  rw [pushIndexName, ExtTreeMap.getElem?_insert]
  by_cases hc : collection = c
  · subst hc
    by_cases hmem : name ∈ index[collection]?.getD []
    · have : n = name → n ∈ index[collection]?.getD [] := fun h => h ▸ hmem
      simp [hmem]
      tauto
    · simp [hmem]
  · simp [hc]

theorem getD_removeIndexName (index : NameIndex) (collection name c : String) :
    (removeIndexName index collection name)[c]?.getD [] =
      if collection = c then (index[c]?.getD []).filter (· ≠ name) else index[c]?.getD [] := by
  rw [removeIndexName]
  by_cases hc : collection = c
  · subst hc
    cases h : index[collection]? with
    | none => simp [h]
    | some names =>
      by_cases hempty : names.filter (· ≠ name) = []
      · simp only [hempty, if_true]
        simpa using hempty.symm
      · simp only [if_neg hempty]
        simp
  · cases index[collection]? with
    | none => simp [hc]
    | some names =>
      by_cases hempty : names.filter (· ≠ name) = []
      · simp only [hempty, if_true]
        simp [ExtTreeMap.getElem?_erase, hc]
      · simp only [if_neg hempty]
        simp [ExtTreeMap.getElem?_insert, hc]

def firsts (seen names : List String) : List String :=
  names.foldl (fun names name => if name ∈ names then names else names ++ [name]) seen

theorem mem_firsts {seen names : List String} {n : String} :
    n ∈ firsts seen names ↔ n ∈ seen ∨ n ∈ names := by
  induction names generalizing seen with
  | nil => simp [firsts]
  | cons name names ih =>
    have hstep : firsts seen (name :: names) =
        firsts (if name ∈ seen then seen else seen ++ [name]) names := rfl
    rw [hstep, ih]
    by_cases hmem : name ∈ seen
    · have : n = name → n ∈ seen := fun h => h ▸ hmem
      simp [hmem]
      tauto
    · simp [hmem, or_assoc]

theorem nodup_firsts {seen names : List String} (h : seen.Nodup) : (firsts seen names).Nodup := by
  induction names generalizing seen with
  | nil => exact h
  | cons name names ih =>
    refine ih ?_
    by_cases hmem : name ∈ seen
    · simpa [hmem] using h
    · simpa [hmem, nodup_append] using ⟨h, fun a ha hname => hmem (hname ▸ ha)⟩

theorem filter_firsts (p : String → Bool) (seen names : List String) :
    (firsts seen names).filter p = firsts (seen.filter p) (names.filter p) := by
  induction names generalizing seen with
  | nil => rfl
  | cons name names ih =>
    have hstep : firsts seen (name :: names) =
        firsts (if name ∈ seen then seen else seen ++ [name]) names := rfl
    rw [hstep, ih, filter_cons]
    by_cases hp : p name
    · rw [if_pos hp]
      by_cases hmem : name ∈ seen
      · have hfiltered : name ∈ seen.filter p := mem_filter.2 ⟨hmem, hp⟩
        rw [if_pos hmem]
        show _ = firsts (if name ∈ seen.filter p then _ else _) _
        rw [if_pos hfiltered]
      · have hfiltered : name ∉ seen.filter p := fun h => hmem (mem_filter.1 h).1
        rw [if_neg hmem]
        show _ = firsts (if name ∈ seen.filter p then _ else _) _
        rw [if_neg hfiltered, filter_append, filter_cons, if_pos hp, filter_nil]
    · rw [if_neg hp]
      by_cases hmem : name ∈ seen
      · rw [if_pos hmem]
      · rw [if_neg hmem, filter_append, filter_cons, if_neg hp, filter_nil,
          append_nil]

namespace FenceTable

variable {ε : Type} {t : FenceTable ε}

def def? (t : FenceTable ε) (name : String) : Option GeofenceDef := t.fences[name]?.map Stored.def_

theorem def?_eq (t : FenceTable ε) (name : String) : t.def? name = t.defs[name]?.map Prod.snd := by
  rw [getElem?_defs, def?]
  cases t.fences[name]? <;> rfl

@[simp] theorem def?_update (t : FenceTable ε) (states : List (String × StoredStateUpdate)) :
    (t.update states).def? = t.def? := by
  funext name
  rw [def?_eq, def?_eq, defs_update]

@[simp] theorem def?_del (t : FenceTable ε) (name other : String) :
    (t.del name).1.def? other = if name = other then none else t.def? other := by
  rw [def?_eq, def?_eq, defs_del, ExtTreeMap.getElem?_erase]
  by_cases h : name = other <;> simp [h]

@[simp] theorem def?_set (t : FenceTable ε) (name : String) (endpoint : ε) (d : GeofenceDef)
    (other : String) :
    (t.set name endpoint d).def? other = if name = other then some d else t.def? other := by
  rw [def?_eq, def?_eq, defs_set, ExtTreeMap.getElem?_insert]
  by_cases h : name = other <;> simp [h]

/-- The indexes list exactly the fences on a collection, and those that roam against it. -/
structure Indexed (t : FenceTable ε) : Prop where
  own : ∀ collection name, name ∈ t.byCollection[collection]?.getD [] ↔
    (t.def? name).map GeofenceDef.collection = some collection
  target : ∀ collection name, name ∈ t.byTargetCollection[collection]?.getD [] ↔
    (t.def? name).bind GeofenceDef.target? = some collection

theorem indexed_empty : ({} : FenceTable ε).Indexed where
  own := by simp [def?]
  target := by simp [def?]

theorem Indexed.update (h : t.Indexed) (states : List (String × StoredStateUpdate)) :
    (t.update states).Indexed where
  own := by rw [def?_update]; exact h.own
  target := by rw [def?_update]; exact h.target

theorem Indexed.getD_del (h : t.Indexed) (name c : String) :
    (t.del name).1.byCollection[c]?.getD [] = (t.byCollection[c]?.getD []).filter (· ≠ name) ∧
    (t.del name).1.byTargetCollection[c]?.getD [] =
      (t.byTargetCollection[c]?.getD []).filter (· ≠ name) := by
  have hown := h.own c name
  have htarget := h.target c name
  rw [def?] at hown htarget
  have hkeep : ∀ names : List String, name ∉ names → names = names.filter (· ≠ name) := by
    intro names hn
    refine (filter_eq_self.2 fun a ha => ?_).symm
    simpa using fun hname : a = name => hn (hname ▸ ha)
  rw [del]
  cases hname : t.fences[name]? with
  | none =>
    simp only [hname, Option.map_none, Option.bind_none, reduceCtorEq, iff_false] at hown htarget
    exact ⟨hkeep _ hown, hkeep _ htarget⟩
  | some stored =>
    simp only [hname, Option.map_some, Option.bind_some, Option.some.injEq] at hown htarget
    constructor
    · show (removeIndexName t.byCollection stored.def_.collection name)[c]?.getD [] = _
      rw [getD_removeIndexName]
      split
      · rfl
      next hc => exact hkeep _ (mt hown.1 hc)
    · dsimp only [removeIndexes]
      cases ht : stored.def_.target? with
      | none => exact hkeep _ (by simp [htarget, ht])
      | some target =>
        rw [getD_removeIndexName]
        split
        · rfl
        next hc => exact hkeep _ (by simpa [htarget, ht] using hc)

theorem fences_del (t : FenceTable ε) (name other : String) :
    (t.del name).1.fences[other]? = if name = other then none else t.fences[other]? := by
  rw [del]
  cases h : t.fences[name]? with
  | none =>
    by_cases ho : name = other
    · subst ho
      simp [h]
    · simp [ho]
  | some stored => by_cases ho : name = other <;> simp [ExtTreeMap.getElem?_erase, ho]

theorem Indexed.del (h : t.Indexed) (name : String) : (t.del name).1.Indexed where
  own c n := by
    rw [(h.getD_del name c).1, mem_filter, h.own, def?_del]
    by_cases hn : name = n
    · simp [hn]
    · simp [hn, Ne.symm hn]
  target c n := by
    rw [(h.getD_del name c).2, mem_filter, h.target, def?_del]
    by_cases hn : name = n
    · simp [hn]
    · simp [hn, Ne.symm hn]

theorem set_eq (t : FenceTable ε) (name : String) (endpoint : ε) (d : GeofenceDef) :
    t.set name endpoint d =
      { (t.del name).1.insertIndexes name d with
        fences := (t.del name).1.fences.insert name { endpoint, def_ := d, state := {} } } := by
  rw [set, del]
  cases t.fences[name]? <;> rfl

theorem fences_set (t : FenceTable ε) (name : String) (endpoint : ε) (d : GeofenceDef)
    (other : String) :
    (t.set name endpoint d).fences[other]? =
      if name = other then some { endpoint, def_ := d, state := {} } else t.fences[other]? := by
  rw [set_eq]
  show ((t.del name).1.fences.insert name _)[other]? = _
  rw [ExtTreeMap.getElem?_insert, fences_del]
  by_cases h : name = other <;> simp [h]

variable {name : String}

theorem fences_foldl_del {names : List String} (h : name ∉ names) (t : FenceTable ε) :
    (names.foldl (fun t n => (t.del n).1) t).fences[name]? = t.fences[name]? := by
  induction names generalizing t with
  | nil => rfl
  | cons n names ih =>
    simp only [mem_cons, not_or] at h
    rw [foldl_cons, ih h.2, fences_del, if_neg (Ne.symm h.1)]

theorem Indexed.set (h : t.Indexed) (name : String) (endpoint : ε) (d : GeofenceDef) :
    (t.set name endpoint d).Indexed where
  own c n := by
    rw [def?_set, set_eq]
    show n ∈ (pushIndexName (t.del name).1.byCollection d.collection name)[c]?.getD [] ↔ _
    rw [mem_pushIndexName, (h.del name).own, def?_del]
    by_cases hn : name = n
    · simp [hn]
    · simp [hn, Ne.symm hn]
  target c n := by
    rw [def?_set, set_eq]
    rw [insertIndexes]
    have hdel := (h.del name).target c n
    cases ht : d.target? with
    | none =>
      rw [hdel]
      by_cases hn : name = n <;> simp [hn, ht]
    | some target =>
      rw [mem_pushIndexName, hdel]
      by_cases hn : name = n
      · simp [hn, ht]
      · simp [hn, Ne.symm hn]

theorem relevantNames_eq (t : FenceTable ε) (collection : String) :
    t.relevantNames collection = firsts []
      (t.byCollection[collection]?.getD [] ++ t.byTargetCollection[collection]?.getD []) := rfl

theorem nodup_relevantNames (t : FenceTable ε) (collection : String) :
    (t.relevantNames collection).Nodup := nodup_firsts nodup_nil

theorem Indexed.mem_relevantNames (h : t.Indexed) {collection : String} {stored : Stored ε}
    (hname : t.fences[name]? = some stored) :
    name ∈ t.relevantNames collection ↔
      stored.def_.collection = collection ∨ stored.def_.target? = some collection := by
  rw [relevantNames_eq, mem_firsts, mem_append, h.own, h.target, def?, hname]
  simp

theorem Indexed.relevantNames_del (h : t.Indexed) (name collection : String) :
    (t.del name).1.relevantNames collection =
      (t.relevantNames collection).filter (· ≠ name) := by
  rw [relevantNames_eq, relevantNames_eq, filter_firsts, filter_append,
    (h.getD_del name collection).1, (h.getD_del name collection).2]
  rfl

variable {states : List (String × StoredStateUpdate)}

theorem fences_update_of_notMem
    (h : name ∉ states.map Prod.fst) : (t.update states).fences[name]? = t.fences[name]? := by
  show (states.foldl _ t.fences)[name]? = _
  generalize t.fences = fences
  induction states generalizing fences with
  | nil => rfl
  | cons s states ih =>
    simp only [map_cons, mem_cons, not_or] at h
    rw [foldl_cons, ih h.2, ExtTreeMap.getElem?_modify]
    simp [Ne.symm h.1]

theorem fences_update_of_mem (hnodup : (states.map Prod.fst).Nodup) {update : StoredStateUpdate}
    (h : (name, update) ∈ states) :
    (t.update states).fences[name]? =
      t.fences[name]?.map fun stored => { stored with state := update.apply stored.state } := by
  obtain ⟨before, after, rfl⟩ := append_of_mem h
  have hbefore : name ∉ before.map Prod.fst := by
    rintro hmem
    simp only [map_append, map_cons] at hnodup
    exact (nodup_middle.1 hnodup).notMem (mem_append_left _ hmem)
  have hafter : name ∉ after.map Prod.fst := by
    rintro hmem
    simp only [map_append, map_cons] at hnodup
    exact (nodup_middle.1 hnodup).notMem (mem_append_right _ hmem)
  have hsplit : t.update (before ++ (name, update) :: after) =
      ((t.update before).update [(name, update)]).update after := by
    simp [FenceTable.update, foldl_append]
  rw [hsplit, fences_update_of_notMem hafter]
  show (((t.update before).fences).modify name _)[name]? = _
  rw [ExtTreeMap.getElem?_modify, fences_update_of_notMem hbefore]
  simp

end FenceTable

/-! ### One mutation -/

/-- A mutation as the fences see it: the event, the stored objects of each collection, and
the order in which a map of matches is walked. -/
structure Mutation where
  event : MutationEvent
  lookup : String → List Object
  order : List String → List String

variable (lib : FenceLib) (m : Mutation)

def Registry.evaluateMutation (r : Registry) : Registry × List GeofenceEvent :=
  let prepared := r.prepareMutation lib m.order m.event m.lookup
  (r.applyPreparedMutation prepared, prepared.events)

def Mutation.evaluate (name : String) (hook : Option String) (d : GeofenceDef)
    (state : StoredState) : Except GeofenceError (StoredStateUpdate × List GeofenceEvent) :=
  evaluateStoredFence lib m.order d state m.event (some name) hook m.lookup

def Mutation.next (name : String) (hook : Option String) (d : GeofenceDef) (state : StoredState) :
    StoredState :=
  match m.evaluate lib name hook d state with
  | .ok result => result.1.apply state
  | .error _ => state

def Mutation.produced (name : String) (hook : Option String) (d : GeofenceDef)
    (state : StoredState) : List GeofenceEvent :=
  match m.evaluate lib name hook d state with
  | .ok result => result.2
  | .error _ => []

variable {lib m}

theorem Mutation.evaluate_elsewhere {name : String} {hook : Option String} {d : GeofenceDef}
    {state : StoredState} (hown : d.collection ≠ m.event.collection)
    (htarget : d.target? ≠ some m.event.collection) :
    m.next lib name hook d state = state ∧ m.produced lib name hook d state = [] := by
  have hresult : ∃ update, m.evaluate lib name hook d state = .ok (update, []) ∧
      update.apply state = state := by
    rw [evaluate, evaluateStoredFence]
    split
    next targetCollection _ _ _ _ hquery =>
      have hne : m.event.collection ≠ targetCollection := by
        rintro rfl
        exact htarget (by rw [GeofenceDef.target?, hquery])
      refine ⟨.replace state, ?_, rfl⟩
      rw [evaluateRoamingFence, if_pos ⟨hown.symm, hne⟩]
      rfl
    · exact ⟨.none, by rw [evaluateStaticFence, if_pos hown], rfl⟩
  obtain ⟨update, heval, happly⟩ := hresult
  rw [next, produced, heval]
  exact ⟨happly, rfl⟩

theorem Mutation.produced_labels {name : String} {hook : Option String} {d : GeofenceDef}
    {state : StoredState} :
    ∀ e ∈ m.produced lib name hook d state, e.hook = hook ∧ e.group = some name := by
  rw [produced]
  cases h : m.evaluate lib name hook d state with
  | error e => exact fun _ he => absurd he not_mem_nil
  | ok result => exact evaluateStoredFence_labels h

section Table

variable {ε : Type} {t : FenceTable ε} {asHook : Bool}

def hookLabel (asHook : Bool) (name : String) : Option String := if asHook then some name else none

variable (lib m) in
def FenceTable.evaluated (t : FenceTable ε) (asHook : Bool) (name : String) :
    Option (StoredStateUpdate × List GeofenceEvent) :=
  t.fences[name]?.bind fun stored =>
    (m.evaluate lib name (hookLabel asHook name) stored.def_ stored.state).toOption

theorem foldl_prepareFence {names : List String} :
    ∀ found : List (String × StoredStateUpdate) × List GeofenceEvent × Nat,
      let result := names.foldl (fun (states, events, errors) name =>
        match t.fences[name]? with
        | none => (states, events, errors)
        | some stored =>
          match evaluateStoredFence lib m.order stored.def_ stored.state m.event (some name)
              (if asHook then some name else none) m.lookup with
          | .ok (update, produced) => (states ++ [(name, update)], events ++ produced, errors)
          | .error _ => (states, events, errors + 1)) found
      result.1 = found.1 ++ names.filterMap (fun name =>
        (t.evaluated lib m asHook name).map fun result => (name, result.1)) ∧
      result.2.1 = found.2.1 ++ names.flatMap fun name =>
        ((t.evaluated lib m asHook name).map Prod.snd).getD [] := by
  induction names with
  | nil => simp
  | cons name names ih =>
    rintro ⟨states, events, errors⟩
    rw [foldl_cons]
    cases hname : t.fences[name]? with
    | none =>
      have hnone : t.evaluated lib m asHook name = none := by
        rw [FenceTable.evaluated, hname, Option.bind_none]
      simpa [hnone] using ih (states, events, errors)
    | some stored =>
      cases heval : evaluateStoredFence lib m.order stored.def_ stored.state m.event (some name)
          (if asHook then some name else none) m.lookup with
      | error e =>
        have hnone : t.evaluated lib m asHook name = none := by
          simp [FenceTable.evaluated, hname, Mutation.evaluate, hookLabel, heval, Except.toOption]
        simpa [hnone, heval] using ih (states, events, errors + 1)
      | ok result =>
        have hsome : t.evaluated lib m asHook name = some result := by
          simp [FenceTable.evaluated, hname, Mutation.evaluate, hookLabel, heval, Except.toOption]
        simpa [hsome, heval] using ih (states ++ [(name, result.1)], events ++ result.2, errors)

theorem prepareFences_eq :
    (prepareFences lib m.order t asHook m.event m.lookup).1 =
      (t.relevantNames m.event.collection).filterMap (fun name =>
        (t.evaluated lib m asHook name).map fun result => (name, result.1)) ∧
    (prepareFences lib m.order t asHook m.event m.lookup).2.1 =
      (t.relevantNames m.event.collection).flatMap fun name =>
        ((t.evaluated lib m asHook name).map Prod.snd).getD [] :=
  foldl_prepareFence ([], [], 0)

variable (lib m asHook) in
theorem FenceTable.Indexed.fences_next (h : t.Indexed) (name : String) :
    (t.update (prepareFences lib m.order t asHook m.event m.lookup).1).fences[name]? =
      t.fences[name]?.map fun stored =>
        { stored with
          state := m.next lib name (hookLabel asHook name) stored.def_ stored.state } := by
  rw [prepareFences_eq.1]
  have hnames : (((t.relevantNames m.event.collection).filterMap fun name =>
      (t.evaluated lib m asHook name).map fun result => (name, result.1)).map Prod.fst).Sublist
      (t.relevantNames m.event.collection) := by
    generalize t.relevantNames m.event.collection = names
    induction names with
    | nil => simp
    | cons n names ih =>
      cases hn : t.evaluated lib m asHook n with
      | none => simpa [hn] using ih.cons n
      | some result => simpa [hn] using ih.cons_cons n
  have hnodup := (t.nodup_relevantNames m.event.collection).sublist hnames
  have hskipped : t.evaluated lib m asHook name = none →
      name ∉ ((t.relevantNames m.event.collection).filterMap fun name =>
        (t.evaluated lib m asHook name).map fun result => (name, result.1)).map Prod.fst := by
    intro hnone hin
    obtain ⟨_, hmem, rfl⟩ := mem_map.1 hin
    obtain ⟨n, -, hn⟩ := mem_filterMap.1 hmem
    obtain ⟨result, hresult, rfl⟩ := Option.map_eq_some_iff.1 hn
    exact absurd (hnone.symm.trans hresult) (by simp)
  cases hname : t.fences[name]? with
  | none =>
    rw [fences_update_of_notMem (hskipped (by simp [evaluated, hname])), hname,
      Option.map_none]
  | some stored =>
    cases heval : m.evaluate lib name (hookLabel asHook name) stored.def_ stored.state with
    | error e =>
      have hnone : t.evaluated lib m asHook name = none := by
        simp [evaluated, hname, heval, Except.toOption]
      rw [fences_update_of_notMem (hskipped hnone), hname, Option.map_some, Mutation.next, heval]
    | ok result =>
      have hresult : t.evaluated lib m asHook name = some result := by
        simp [evaluated, hname, heval, Except.toOption]
      by_cases hmem : name ∈ t.relevantNames m.event.collection
      · have hin : (name, result.1) ∈ (t.relevantNames m.event.collection).filterMap fun name =>
            (t.evaluated lib m asHook name).map fun result => (name, result.1) :=
          mem_filterMap.2 ⟨name, hmem, by rw [hresult]; rfl⟩
        rw [fences_update_of_mem hnodup hin, hname, Option.map_some, Option.map_some,
          Mutation.next, heval]
      · have helse := mt (h.mem_relevantNames hname).2 hmem
        rw [not_or] at helse
        rw [fences_update_of_notMem (fun hin => hmem (hnames.subset hin)), hname, Option.map_some,
          (Mutation.evaluate_elsewhere helse.1 helse.2).1]

theorem flatMap_ite_eq {α β : Type} [DecidableEq α] {l : List α} (h : l.Nodup) (a : α)
    (x : List β) : (l.flatMap fun b => if b = a then x else []) = if a ∈ l then x else [] := by
  induction l with
  | nil => rfl
  | cons b l ih =>
    obtain ⟨hfresh, hnodup⟩ := nodup_cons.1 h
    rw [flatMap_cons, ih hnodup]
    by_cases hb : b = a
    · subst hb
      simp [hfresh]
    · simp [hb, Ne.symm hb]

variable (lib m asHook) in
theorem FenceTable.Indexed.filter_events (h : t.Indexed) {name : String} {stored : Stored ε}
    (hname : t.fences[name]? = some stored) :
    (prepareFences lib m.order t asHook m.event m.lookup).2.1.filter
        (fun event => event.group = some name) =
      m.produced lib name (hookLabel asHook name) stored.def_ stored.state := by
  have hproduced : ∀ {n s}, t.fences[n]? = some s →
      ((t.evaluated lib m asHook n).map Prod.snd).getD [] =
        m.produced lib n (hookLabel asHook n) s.def_ s.state := by
    intro n s hn
    rw [evaluated, hn, Option.bind_some, Mutation.produced]
    cases m.evaluate lib n (hookLabel asHook n) s.def_ s.state <;> rfl
  have hone : ∀ n, (((t.evaluated lib m asHook n).map Prod.snd).getD []).filter
      (fun event => event.group = some name) = if n = name then
        m.produced lib name (hookLabel asHook name) stored.def_ stored.state else [] := by
    intro n
    by_cases hn : n = name
    · subst hn
      rw [if_pos rfl, hproduced hname, filter_eq_self]
      exact fun event hevent => decide_eq_true (Mutation.produced_labels event hevent).2
    · rw [if_neg hn, filter_eq_nil_iff]
      cases hget : t.fences[n]? with
      | none => simp [evaluated, hget]
      | some s =>
        rw [hproduced hget]
        intro event hevent hgroup
        have hlabel := (Mutation.produced_labels event hevent).2
        rw [of_decide_eq_true hgroup] at hlabel
        exact hn (Option.some.inj hlabel).symm
  rw [prepareFences_eq.2, filter_flatMap]
  simp only [hone]
  rw [flatMap_ite_eq (t.nodup_relevantNames _)]
  by_cases hmem : name ∈ t.relevantNames m.event.collection
  · rw [if_pos hmem]
  · have helse := mt (h.mem_relevantNames hname).2 hmem
    rw [not_or] at helse
    rw [if_neg hmem, (Mutation.evaluate_elsewhere helse.1 helse.2).2]

theorem FenceTable.Indexed.events_del (h : t.Indexed) {name : String}
    (hfails : t.evaluated lib m asHook name = none) :
    (prepareFences lib m.order (t.del name).1 asHook m.event m.lookup).2.1 =
      (prepareFences lib m.order t asHook m.event m.lookup).2.1 := by
  rw [prepareFences_eq.2, prepareFences_eq.2, h.relevantNames_del]
  have hother : ∀ n, n ≠ name →
      (t.del name).1.evaluated lib m asHook n = t.evaluated lib m asHook n := by
    intro n hn
    rw [evaluated, evaluated, fences_del, if_neg (Ne.symm hn)]
  induction t.relevantNames m.event.collection with
  | nil => rfl
  | cons n names ih =>
    by_cases hn : n = name
    · subst hn
      simpa [hfails] using ih
    · simpa [hn, hother n hn] using ih

end Table

end LatLng.Geofence
