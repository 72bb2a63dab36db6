import LatLng.Geofence.Tables

/-! Static fences over runs of registry calls: the flag a fence remembers for an object says
whether the object was inside at its last mutation, and the transitions follow the flag. -/

namespace LatLng.Geofence

open Geo Index Std List FenceTable Registry

/-! ### Fences of a registry -/

inductive Fence where
  | channel (name : String)
  | hook (name : String)
deriving DecidableEq

namespace Fence

def name : Fence → String
  | .channel name => name
  | .hook name => name

def hook? : Fence → Option String
  | .channel _ => none
  | .hook name => some name

def Owns (fence : Fence) (event : GeofenceEvent) : Prop :=
  event.group = some fence.name ∧ event.hook = fence.hook?

instance (fence : Fence) (event : GeofenceEvent) : Decidable (fence.Owns event) :=
  inferInstanceAs (Decidable (_ ∧ _))

end Fence

namespace Registry

def fence? (r : Registry) : Fence → Option (GeofenceDef × StoredState)
  | .channel name => r.channels.fences[name]?.map fun stored => (stored.def_, stored.state)
  | .hook name => r.hooks.fences[name]?.map fun stored => (stored.def_, stored.state)

def without (r : Registry) : Fence → Registry
  | .channel name => (r.delChannel name).1
  | .hook name => (r.delHook name).1

structure Indexed (r : Registry) : Prop where
  channels : r.channels.Indexed
  hooks : r.hooks.Indexed

variable {r : Registry} {lib : FenceLib} {m : Mutation} {fence : Fence}

theorem fence?_without (r : Registry) {failing : Fence} (h : fence ≠ failing) :
    (r.without failing).fence? fence = r.fence? fence := by
  cases failing with
  | channel name =>
    cases fence with
    | channel other =>
      have hne : name ≠ other := fun heq => h (heq ▸ rfl)
      simp only [without, fence?, channels_delChannel, fences_del, if_neg hne]
    | hook other => simp only [without, fence?, hooks_delChannel]
  | hook name =>
    cases fence with
    | channel other => simp only [without, fence?, channels_delHook]
    | hook other =>
      have hne : name ≠ other := fun heq => h (heq ▸ rfl)
      simp only [without, fence?, hooks_delHook, fences_del, if_neg hne]

theorem Indexed.without (h : r.Indexed) (fence : Fence) : (r.without fence).Indexed := by
  cases fence with
  | channel name =>
    exact ⟨by rw [Registry.without, channels_delChannel]; exact h.channels.del name,
      by rw [Registry.without, hooks_delChannel]; exact h.hooks⟩
  | hook name =>
    exact ⟨by rw [Registry.without, channels_delHook]; exact h.channels,
      by rw [Registry.without, hooks_delHook]; exact h.hooks.del name⟩

variable (lib m) in
theorem Indexed.fence?_evaluateMutation (h : r.Indexed) (fence : Fence) :
    (r.evaluateMutation lib m).1.fence? fence = (r.fence? fence).map fun found =>
      (found.1, m.next lib fence.name fence.hook? found.1 found.2) := by
  cases fence with
  | channel name =>
    have hnext := h.channels.fences_next lib m false name
    show ((r.channels.update _).fences[name]?).map _ = _
    rw [prepareMutation, hnext, fence?, Option.map_map, Option.map_map]
    rfl
  | hook name =>
    have hnext := h.hooks.fences_next lib m true name
    show ((r.hooks.update _).fences[name]?).map _ = _
    rw [prepareMutation, hnext, fence?, Option.map_map, Option.map_map]
    rfl

variable {found : GeofenceDef × StoredState}

theorem Indexed.events_without (h : r.Indexed) {failing : Fence}
    (hfence : r.fence? failing = some found) {error : GeofenceError}
    (hfails : m.evaluate lib failing.name failing.hook? found.1 found.2 = .error error) :
    ((r.without failing).evaluateMutation lib m).2 = (r.evaluateMutation lib m).2 := by
  have hevents : ∀ r : Registry, (r.evaluateMutation lib m).2 =
      (prepareFences lib m.order r.channels false m.event m.lookup).2.1 ++
        (prepareFences lib m.order r.hooks true m.event m.lookup).2.1 := fun _ => rfl
  rw [hevents, hevents]
  cases failing with
  | channel name =>
    obtain ⟨stored, hstored, rfl⟩ := Option.map_eq_some_iff.1 hfence
    have hnone : r.channels.evaluated lib m false name = none := by
      rw [evaluated, hstored]
      exact congrArg Except.toOption hfails
    rw [Registry.without, channels_delChannel, hooks_delChannel, h.channels.events_del hnone]
  | hook name =>
    obtain ⟨stored, hstored, rfl⟩ := Option.map_eq_some_iff.1 hfence
    have hnone : r.hooks.evaluated lib m true name = none := by
      rw [evaluated, hstored]
      exact congrArg Except.toOption hfails
    rw [Registry.without, channels_delHook, hooks_delHook, h.hooks.events_del hnone]

variable (lib m) in
theorem Indexed.filter_events (h : r.Indexed) (hfence : r.fence? fence = some found) :
    (r.evaluateMutation lib m).2.filter (fun event => decide (fence.Owns event)) =
      m.produced lib fence.name fence.hook? found.1 found.2 := by
  have hevents : (r.evaluateMutation lib m).2 =
      (prepareFences lib m.order r.channels false m.event m.lookup).2.1 ++
        (prepareFences lib m.order r.hooks true m.event m.lookup).2.1 := rfl
  rw [hevents, filter_append]
  cases fence with
  | channel name =>
    obtain ⟨stored, hstored, rfl⟩ := Option.map_eq_some_iff.1 hfence
    have hhooks : (prepareFences lib m.order r.hooks true m.event m.lookup).2.1.filter
        (fun event => decide ((Fence.channel name).Owns event)) = [] := by
      refine filter_eq_nil_iff.2 fun event hmem howns => ?_
      obtain ⟨other, -, hother, -⟩ := prepareFences_labels event hmem
      exact absurd ((of_decide_eq_true howns).2.symm.trans hother) (by simp [Fence.hook?])
    rw [hhooks, append_nil]
    refine (filter_congr fun event hmem => ?_).trans
      (h.channels.filter_events lib m false hstored)
    obtain ⟨other, -, hother, -⟩ := prepareFences_labels event hmem
    exact decide_eq_decide.2 (by simp [Fence.Owns, Fence.name, Fence.hook?, hother])
  | hook name =>
    obtain ⟨stored, hstored, rfl⟩ := Option.map_eq_some_iff.1 hfence
    have hchannels : (prepareFences lib m.order r.channels false m.event m.lookup).2.1.filter
        (fun event => decide ((Fence.hook name).Owns event)) = [] := by
      refine filter_eq_nil_iff.2 fun event hmem howns => ?_
      obtain ⟨other, -, hother, -⟩ := prepareFences_labels event hmem
      exact absurd ((of_decide_eq_true howns).2.symm.trans hother) (by simp [Fence.hook?])
    rw [hchannels, nil_append]
    refine (filter_congr fun event hmem => ?_).trans
      (h.hooks.filter_events lib m true hstored)
    obtain ⟨other, -, hother, hgroup⟩ := prepareFences_labels event hmem
    exact decide_eq_decide.2 (by simp [Fence.Owns, Fence.name, Fence.hook?, hother, hgroup])

theorem Indexed.mem_events_iff (h : r.Indexed)
    (hfence : r.fence? fence = some found) (event : GeofenceEvent) :
    event ∈ (r.evaluateMutation lib m).2 ∧ fence.Owns event ↔
      event ∈ m.produced lib fence.name fence.hook? found.1 found.2 := by
  rw [← h.filter_events lib m hfence, mem_filter, decide_eq_true_iff]

end Registry

/-! ### Calls on the registry -/

inductive RegistryCall where
  | setChannel (name : String) (d : GeofenceDef)
  | delChannel (name : String)
  | pdelChannel (pattern : String)
  | setHook (name endpoint : String) (d : GeofenceDef)
  | delHook (name : String)
  | pdelHook (pattern : String)
  | clearAll
  | mutate (m : Mutation)

variable (lib : FenceLib)

def Registry.perform (r : Registry) : RegistryCall → Registry
  | .setChannel name d => r.setChannel name d
  | .delChannel name => (r.delChannel name).1
  | .pdelChannel pattern => (r.pdelChannel lib pattern).1
  | .setHook name endpoint d => r.setHook name endpoint d
  | .delHook name => (r.delHook name).1
  | .pdelHook pattern => (r.pdelHook lib pattern).1
  | .clearAll => r.clearAll
  | .mutate m => (r.evaluateMutation lib m).1

def Registry.after (calls : List RegistryCall) : Registry := calls.foldl (Registry.perform lib) {}

def RegistryCall.Redefines : RegistryCall → Fence → Prop
  | .setChannel name _, .channel fence => name = fence
  | .delChannel name, .channel fence => name = fence
  | .pdelChannel pattern, .channel fence => lib.globMatch pattern fence = true
  | .setHook name _ _, .hook fence => name = fence
  | .delHook name, .hook fence => name = fence
  | .pdelHook pattern, .hook fence => lib.globMatch pattern fence = true
  | .clearAll, _ => True
  | _, _ => False

variable {lib}

variable (lib) in
theorem Registry.Indexed.perform {r : Registry} (h : r.Indexed) (call : RegistryCall) :
    (r.perform lib call).Indexed := by
  have hfold : ∀ {ε : Type} (names : List String) {t : FenceTable ε}, t.Indexed →
      (names.foldl (fun t n => (t.del n).1) t).Indexed := by
    intro ε names
    induction names with
    | nil => exact fun ht => ht
    | cons n names ih => exact fun ht => ih (ht.del n)
  cases call with
  | setChannel name d => exact ⟨h.channels.set name () d, h.hooks⟩
  | delChannel name => exact h.without (.channel name)
  | pdelChannel pattern =>
    refine ⟨?_, ?_⟩
    · rw [Registry.perform, pdelChannel, channels_foldl_delChannel]
      exact hfold _ h.channels
    · rw [Registry.perform, hooks_pdelChannel]
      exact h.hooks
  | setHook name endpoint d => exact ⟨h.channels, h.hooks.set name endpoint d⟩
  | delHook name => exact h.without (.hook name)
  | pdelHook pattern =>
    refine ⟨?_, ?_⟩
    · rw [Registry.perform, channels_pdelHook]
      exact h.channels
    · rw [Registry.perform, pdelHook, hooks_foldl_delHook]
      exact hfold _ h.hooks
  | clearAll => exact ⟨indexed_empty, indexed_empty⟩
  | mutate m => exact ⟨h.channels.update _, h.hooks.update _⟩

variable (lib) in
theorem Registry.indexed_after (calls : List RegistryCall) : (after lib calls).Indexed :=
  foldlRecOn calls _ ⟨indexed_empty, indexed_empty⟩
    fun _ h call _ => h.perform lib call

/-! ### The lookups after any calls -/

/-- The lookup gives exactly the fences on the collection or roaming against it, each once. -/
structure FenceTable.Looked {ε : Type} (t : FenceTable ε) (collection : String) : Prop where
  once : (t.relevantNames collection).Nodup
  exactly : ∀ name, name ∈ t.relevantNames collection ↔
    ∃ d, t.def? name = some d ∧ (d.collection = collection ∨ d.target? = some collection)

theorem FenceTable.Indexed.looked {ε : Type} {t : FenceTable ε} (h : t.Indexed)
    (collection : String) : t.Looked collection where
  once := t.nodup_relevantNames collection
  exactly := by
    intro name
    rw [relevantNames_eq, mem_firsts, mem_append, h.own, h.target]
    cases t.def? name <;> simp

def GeofenceDef.Crosses (d : GeofenceDef) (collection : String) : Prop :=
  ∃ target, d.target? = some target ∧ target ≠ d.collection ∧
    (collection = d.collection ∨ collection = target)

def Registry.Defines (r : Registry) (d : GeofenceDef) : Prop :=
  (∃ name, r.channels.def? name = some d) ∨ ∃ name, r.hooks.def? name = some d

def Registry.Flagged (r : Registry) : Prop :=
  ∀ collection, r.requiresExclusiveRoamPath collection = true ↔
    ∃ d, r.Defines d ∧ d.Crosses collection

theorem FenceTable.mem_defs {ε : Type} (t : FenceTable ε) (d : GeofenceDef) :
    d ∈ t.fences.values.map Stored.def_ ↔ ∃ name, t.def? name = some d := by
  simp only [Lib.values_eq_map, map_map, mem_map, Prod.exists,
    ExtTreeMap.mem_toList_iff_getElem?_eq_some, def?, Option.map_eq_some_iff, Function.comp]

/-- The fold adds to what is there already. -/
theorem mem_foldl_crosses {collection : String} {defs : List GeofenceDef} :
    ∀ names : ExtTreeSet String, collection ∈ defs.foldl (fun names d => match d.target? with
      | some target =>
        if target ≠ d.collection then (names.insert d.collection).insert target else names
      | none => names) names ↔
    collection ∈ names ∨ ∃ d ∈ defs, d.Crosses collection := by
  induction defs with
  | nil => simp
  | cons d defs ih =>
    intro names
    rw [foldl_cons, ih, exists_mem_cons_iff, ← or_assoc]
    unfold GeofenceDef.Crosses
    cases d.target? with
    | none => simp
    | some target =>
      by_cases hne : target = d.collection
      · simp [hne]
      · grind

theorem Registry.flagged_refresh (r : Registry) :
    r.refreshCrossCollectionRoamingCollections.Flagged := by
  intro collection
  refine (mem_foldl_crosses ∅).trans ?_
  simp only [ExtTreeSet.not_mem_empty, false_or, mem_append, mem_defs]
  rfl

variable {r : Registry}

theorem Registry.Flagged.delChannel (h : r.Flagged) (name : String) :
    (r.delChannel name).1.Flagged := by
  unfold Registry.delChannel
  split
  · exact flagged_refresh _
  · exact h

theorem Registry.Flagged.delHook (h : r.Flagged) (name : String) : (r.delHook name).1.Flagged := by
  unfold Registry.delHook
  split
  · exact flagged_refresh _
  · exact h

variable (lib) in
theorem Registry.Flagged.perform {r : Registry} (h : r.Flagged) (call : RegistryCall) :
    (r.perform lib call).Flagged := by
  cases call with
  | setChannel name d => exact flagged_refresh _
  | setHook name endpoint d => exact flagged_refresh _
  | delChannel name => exact h.delChannel name
  | delHook name => exact h.delHook name
  | pdelChannel pattern => exact foldlRecOn _ _ h fun _ h name _ => h.delChannel name
  | pdelHook pattern => exact foldlRecOn _ _ h fun _ h name _ => h.delHook name
  | clearAll =>
    intro collection
    simp [Registry.perform, clearAll, requiresExclusiveRoamPath, Defines, def?]
  | mutate m =>
    -- An evaluation touches neither the definitions nor the flag.
    intro collection
    have hdefs : ∀ d, (r.perform lib (.mutate m)).Defines d ↔ r.Defines d := by
      intro d
      simp only [Defines, Registry.perform, evaluateMutation, applyPreparedMutation,
        def?_update]
    simp only [hdefs]
    exact h collection

variable (lib) in
theorem Registry.flagged_after (calls : List RegistryCall) : (after lib calls).Flagged :=
  foldlRecOn calls _ (flagged_refresh {}) fun _ h call _ => h.perform lib call

/-- Whatever was defined, redefined and removed: the lookups by collection choose the right
fences, each once, and the exclusive path is asked for by the right collections. -/
theorem Registry.lookups_exact (lib : FenceLib) (calls : List RegistryCall) (collection : String) :
    (Registry.after lib calls).channels.Looked collection ∧
      (Registry.after lib calls).hooks.Looked collection ∧
      ((Registry.after lib calls).requiresExclusiveRoamPath collection = true ↔
        ∃ d, (Registry.after lib calls).Defines d ∧ d.Crosses collection) :=
  ⟨(indexed_after lib calls).channels.looked collection,
    (indexed_after lib calls).hooks.looked collection, flagged_after lib calls collection⟩

theorem Registry.fence?_perform {call : RegistryCall} {fence : Fence}
    (hkeep : ¬ call.Redefines lib fence) (hcall : ∀ m, call ≠ .mutate m) :
    (r.perform lib call).fence? fence = r.fence? fence := by
  cases call with
  | setChannel name d =>
    cases fence with
    | channel other =>
      show ((r.channels.set name () d).fences[other]?).map _ = _
      have hne : name ≠ other := hkeep
      rw [fences_set, if_neg hne, fence?]
    | hook other => rfl
  | delChannel name =>
    have hne : fence ≠ .channel name := by
      rintro rfl
      exact hkeep rfl
    exact r.fence?_without hne
  | pdelChannel pattern =>
    cases fence with
    | channel other =>
      rw [fence?, perform, pdelChannel, channels_foldl_delChannel,
        fences_foldl_del (fun hmem => hkeep (mem_filter.1 hmem).2), fence?]
    | hook other => rw [fence?, perform, hooks_pdelChannel, fence?]
  | setHook name endpoint d =>
    cases fence with
    | channel other => rfl
    | hook other =>
      show ((r.hooks.set name endpoint d).fences[other]?).map _ = _
      have hne : name ≠ other := hkeep
      rw [fences_set, if_neg hne, fence?]
  | delHook name =>
    have hne : fence ≠ .hook name := by
      rintro rfl
      exact hkeep rfl
    exact r.fence?_without hne
  | pdelHook pattern =>
    cases fence with
    | channel other => rw [fence?, perform, channels_pdelHook, fence?]
    | hook other =>
      rw [fence?, perform, pdelHook, hooks_foldl_delHook,
        fences_foldl_del (fun hmem => hkeep (mem_filter.1 hmem).2), fence?]
  | clearAll => exact absurd trivial hkeep
  | mutate m => exact absurd rfl (hcall m)

/-! ### Transitions of a static fence -/

def StoredState.inside (state : StoredState) (id : String) : Bool := state.objects[id]?.getD false

def transition (lib : FenceLib) (d : GeofenceDef) (state : StoredState) (event : MutationEvent) :
    Except GeofenceError DetectType := do
  detectStatic (state.inside event.id) (← currentlyInside lib event d) (crossedBoundary lib event d)

structure DetectType.Between (detect : DetectType) (before after : Bool) : Prop where
  enter : detect = .enter ↔ before = false ∧ after = true
  inside : detect = .inside ↔ before = true ∧ after = true
  exit : detect = .exit ↔ before = true ∧ after = false

theorem detectStatic_between {before after : Bool} {crossed : Except GeofenceError Bool}
    {detect : DetectType} (h : detectStatic before after crossed = .ok detect) :
    detect.Between before after := by
  cases before <;> cases after
  · cases crossed with
    | error e => simp [detectStatic, Except.map] at h
    | ok crossed => cases crossed <;> cases h <;> constructor <;> simp
  all_goals
    cases h
    constructor <;> simp

def GeofenceDef.Selects (d : GeofenceDef) (command : MutationCommand) (detect : DetectType) : Prop :=
  (d.detect = [] ∨ detect ∈ d.detect) ∧ (d.commands = [] ∨ command ∈ d.commands)

instance (d : GeofenceDef) (command : MutationCommand) (detect : DetectType) :
    Decidable (d.Selects command detect) :=
  inferInstanceAs (Decidable (_ ∧ _))

variable {d : GeofenceDef} {state : StoredState}

theorem Mutation.evaluate_static {m : Mutation} {name : String} {hook : Option String}
    (hstatic : d.target? = none) (hown : d.collection = m.event.collection)
    {result : StoredStateUpdate × List GeofenceEvent}
    (h : m.evaluate lib name hook d state = .ok result) :
    ∃ inside detect, currentlyInside lib m.event d = .ok inside ∧
      transition lib d state m.event = .ok detect ∧
      detect.Between (state.inside m.event.id) inside ∧
      result.1 = .object m.event.id (m.event.after.map fun _ => inside) ∧
      (∀ e ∈ result.2, e.detect = detect ∧ e.id = m.event.id) ∧
      (result.2 ≠ [] ↔ d.Selects m.event.command detect) := by
  rw [evaluate, evaluateStoredFence] at h
  split at h
  next hquery => simp [GeofenceDef.target?, hquery] at hstatic
  · rw [evaluateStaticFence, if_neg (not_not.2 hown)] at h
    simp only [bind, Except.bind] at h
    split at h
    · cases h
    next inside hinside =>
      split at h
      · cases h
      next detect hdetect =>
        refine ⟨inside, detect, hinside, ?_, detectStatic_between hdetect, ?_⟩
        · rw [transition, hinside]
          exact hdetect
        · split at h
          next hselected =>
            cases h
            refine ⟨rfl, ?_, by simpa [GeofenceDef.Selects] using hselected⟩
            intro e he
            cases mem_singleton.1 he
            exact ⟨rfl, rfl⟩
          next hselected =>
            cases h
            exact ⟨rfl, by simp, by simpa [GeofenceDef.Selects] using hselected⟩

theorem Mutation.evaluate_of_transition {m : Mutation} {name : String} {hook : Option String}
    (hstatic : d.target? = none) (hown : d.collection = m.event.collection) {detect : DetectType}
    (h : transition lib d state m.event = .ok detect) :
    ∃ result, m.evaluate lib name hook d state = .ok result := by
  rw [transition] at h
  rw [evaluate, evaluateStoredFence]
  split
  next hquery => simp [GeofenceDef.target?, hquery] at hstatic
  · rw [evaluateStaticFence, if_neg (not_not.2 hown)]
    cases hinside : currentlyInside lib m.event d with
    | error e =>
      rw [hinside] at h
      cases h
    | ok inside =>
      rw [hinside] at h
      have hdetect : detectStatic (state.objects[m.event.id]?.getD false) inside
          (crossedBoundary lib m.event d) = .ok detect := h
      simp only [bind, Except.bind, hdetect]
      split <;> exact ⟨_, rfl⟩

/-- What one mutation does to a static fence that had the state `before`, given the state it
has afterwards and the events of all fences. -/
structure StaticStep (lib : FenceLib) (m : Mutation) (fence : Fence) (d : GeofenceDef)
    (before after : StoredState) (events : List GeofenceEvent) : Prop where
  elsewhere : d.collection ≠ m.event.collection → after = before
  others : ∀ id, id ≠ m.event.id → after.objects[id]? = before.objects[id]?
  failed : ∀ error, m.evaluate lib fence.name fence.hook? d before = .error error → after = before
  stored : d.collection = m.event.collection →
    ∀ result, m.evaluate lib fence.name fence.hook? d before = .ok result →
    ∀ object, m.event.after = some object →
      ∃ inside, objectMatchesQuery lib object d = .ok inside ∧
        after.objects[m.event.id]? = some inside
  deleted : d.collection = m.event.collection → m.event.after = none →
    ∀ result, m.evaluate lib fence.name fence.hook? d before = .ok result →
      after.objects[m.event.id]? = none
  classified : d.collection = m.event.collection →
    ∀ result, m.evaluate lib fence.name fence.hook? d before = .ok result →
      ∃ detect, transition lib d before m.event = .ok detect ∧
        detect.Between (before.inside m.event.id) (after.inside m.event.id) ∧
        (∀ e ∈ events, fence.Owns e → e.detect = detect ∧ e.id = m.event.id) ∧
        ((∃ e ∈ events, fence.Owns e) ↔ d.Selects m.event.command detect)

section Step

variable {r : Registry} {m : Mutation} {fence : Fence} {d : GeofenceDef} {before : StoredState}

theorem objects_object (id other : String) (inside : Option Bool) (state : StoredState) :
    ((StoredStateUpdate.object id inside).apply state).objects[other]? =
      if id = other then inside else state.objects[other]? := by
  cases inside with
  | none => simp [StoredStateUpdate.apply, ExtTreeMap.getElem?_erase]
  | some inside => simp [StoredStateUpdate.apply, ExtTreeMap.getElem?_insert]

variable (lib m) in
theorem Registry.Indexed.staticStep (h : r.Indexed) (hfence : r.fence? fence = some (d, before))
    (hstatic : d.target? = none) :
    StaticStep lib m fence d before (m.next lib fence.name fence.hook? d before)
      (r.evaluateMutation lib m).2 := by
  have helse : d.collection ≠ m.event.collection →
      m.next lib fence.name fence.hook? d before = before := fun hne =>
    (Mutation.evaluate_elsewhere hne (by simp [hstatic])).1
  refine ⟨helse, ?_, ?_, ?_, ?_, ?_⟩
  · intro id hid
    by_cases hown : d.collection = m.event.collection
    · cases heval : m.evaluate lib fence.name fence.hook? d before with
      | error e => rw [Mutation.next, heval]
      | ok result =>
        obtain ⟨inside, detect, -, -, -, hupdate, -, -⟩ := Mutation.evaluate_static hstatic hown heval
        rw [Mutation.next, heval]
        show (result.1.apply before).objects[id]? = _
        rw [hupdate, objects_object, if_neg hid.symm]
    · rw [helse hown]
  · intro error heval
    rw [Mutation.next, heval]
  · intro hown result heval object hobject
    obtain ⟨inside, detect, hinside, -, -, hupdate, -, -⟩ := Mutation.evaluate_static hstatic hown heval
    rw [currentlyInside, hobject] at hinside
    refine ⟨inside, hinside, ?_⟩
    rw [Mutation.next, heval]
    show (result.1.apply before).objects[m.event.id]? = _
    rw [hupdate, objects_object, if_pos rfl, hobject, Option.map_some]
  · intro hown hgone result heval
    obtain ⟨inside, detect, -, -, -, hupdate, -, -⟩ := Mutation.evaluate_static hstatic hown heval
    rw [Mutation.next, heval]
    show (result.1.apply before).objects[m.event.id]? = _
    rw [hupdate, objects_object, if_pos rfl, hgone, Option.map_none]
  · intro hown result heval
    obtain ⟨inside, detect, hinside, htransition, hbetween, hupdate, hevents, hselects⟩ :=
      Mutation.evaluate_static hstatic hown heval
    have hflag : (m.next lib fence.name fence.hook? d before).inside m.event.id = inside := by
      rw [Mutation.next, heval]
      show ((result.1.apply before).objects[m.event.id]?).getD false = _
      rw [hupdate, objects_object, if_pos rfl]
      cases hafter : m.event.after with
      | none =>
        rw [currentlyInside, hafter] at hinside
        cases hinside
        rfl
      | some object => rfl
    have hproduced : m.produced lib fence.name fence.hook? d before = result.2 := by
      rw [Mutation.produced, heval]
    have hmem : ∀ e, e ∈ (r.evaluateMutation lib m).2 ∧ fence.Owns e ↔ e ∈ result.2 := by
      intro e
      rw [h.mem_events_iff hfence e, hproduced]
    refine ⟨detect, htransition, by rwa [hflag], ?_, ?_⟩
    · exact fun e he howns => hevents e ((hmem e).1 ⟨he, howns⟩)
    · rw [← hselects]
      simp only [hmem]
      exact ⟨fun he => ne_nil_of_mem he.choose_spec, exists_mem_of_ne_nil _⟩

end Step

/-! ### Runs -/

def classified (lib : FenceLib) (fence : Fence) (id : String) (r : Registry) :
    RegistryCall → Option DetectType
  | .mutate m => do
    let (d, state) ← r.fence? fence
    if d.collection = m.event.collection ∧ m.event.id = id then
      (transition lib d state m.event).toOption
    else none
  | _ => none

def classifications (lib : FenceLib) (fence : Fence) (id : String) :
    Registry → List RegistryCall → List DetectType
  | _, [] => []
  | r, call :: calls =>
    (classified lib fence id r call).toList ++ classifications lib fence id (r.perform lib call) calls

def Threads : Bool → List DetectType → Prop
  | _, [] => True
  | inside, detect :: rest => ∃ next, detect.Between inside next ∧ Threads next rest

variable {between later : List DetectType}

theorem Threads.exit_mem
    (h : Threads true (between ++ .enter :: later)) : DetectType.exit ∈ between := by
  induction between with
  | nil =>
    obtain ⟨next, henter, -⟩ := h
    exact absurd (henter.enter.1 rfl).1 (by simp)
  | cons detect between ih =>
    obtain ⟨next, hdetect, hrest⟩ := h
    cases next with
    | false => exact hdetect.exit.2 ⟨rfl, rfl⟩ ▸ mem_cons_self
    | true => exact mem_cons_of_mem _ (ih hrest)

theorem Threads.exit_between {inside : Bool} {earlier : List DetectType}
    (h : Threads inside (earlier ++ .enter :: (between ++ .enter :: later))) :
    DetectType.exit ∈ between := by
  induction earlier generalizing inside with
  | nil =>
    obtain ⟨next, henter, hrest⟩ := h
    rw [(henter.enter.1 rfl).2] at hrest
    exact hrest.exit_mem
  | cons detect earlier ih =>
    obtain ⟨next, -, hrest⟩ := h
    exact ih hrest

theorem Registry.Indexed.threads (h : r.Indexed) {fence : Fence}
    (hfence : r.fence? fence = some (d, state)) (hstatic : d.target? = none)
    {calls : List RegistryCall} (hkeep : ∀ call ∈ calls, ¬ call.Redefines lib fence)
    (id : String) : Threads (state.inside id) (classifications lib fence id r calls) := by
  induction calls generalizing r state with
  | nil => trivial
  | cons call calls ih =>
    obtain ⟨hcall, hrest⟩ := forall_mem_cons.1 hkeep
    rw [classifications]
    by_cases hmutate : ∃ m, call = .mutate m
    · obtain ⟨m, rfl⟩ := hmutate
      have hstep := h.staticStep lib m hfence hstatic
      have hnext := h.fence?_evaluateMutation lib m fence
      rw [hfence, Option.map_some] at hnext
      have hlater := ih (h.perform lib (.mutate m)) hnext hrest
      by_cases hhere : d.collection = m.event.collection ∧ m.event.id = id
      · obtain ⟨hown, rfl⟩ := hhere
        cases heval : m.evaluate lib fence.name fence.hook? d state with
        | error error =>
          have hclass : classified lib fence m.event.id r (.mutate m) = none := by
            cases htransition : transition lib d state m.event with
            | error e => simp [classified, hfence, htransition, Except.toOption]
            | ok detect =>
              obtain ⟨result, hok⟩ := Mutation.evaluate_of_transition hstatic hown htransition
              rw [heval] at hok
              cases hok
          rw [hclass, ← hstep.failed error heval]
          exact hlater
        | ok result =>
          obtain ⟨detect, htransition, hbetween, -, -⟩ := hstep.classified hown result heval
          have hclass : classified lib fence m.event.id r (.mutate m) = some detect := by
            simp [classified, hfence, hown, htransition, Except.toOption]
          rw [hclass]
          exact ⟨_, hbetween, hlater⟩
      · have hclass : classified lib fence id r (.mutate m) = none := by
          simp [classified, hfence, hhere]
        have hflag : (m.next lib fence.name fence.hook? d state).inside id = state.inside id := by
          by_cases hown : d.collection = m.event.collection
          · rw [StoredState.inside, hstep.others id (fun hid => hhere ⟨hown, hid.symm⟩),
              StoredState.inside]
          · rw [hstep.elsewhere hown]
        rw [hclass, ← hflag]
        exact hlater
    · have hclass : classified lib fence id r call = none := by
        cases call <;> first | rfl | exact absurd ⟨_, rfl⟩ hmutate
      rw [hclass]
      refine ih (h.perform lib call) ?_ hrest
      rw [fence?_perform hcall fun m hm => hmutate ⟨m, hm⟩, hfence]

/-- The flag of an object follows its mutations, its transitions follow the flag, and a fence
that fails to evaluate is as good as not there. -/
theorem static_fence_transitions (lib : FenceLib) (calls : List RegistryCall) :
    (∀ fence d before, (Registry.after lib calls).fence? fence = some (d, before) →
      d.target? = none → ∀ m : Mutation, ∃ after,
        ((Registry.after lib calls).evaluateMutation lib m).1.fence? fence = some (d, after) ∧
        StaticStep lib m fence d before after
          ((Registry.after lib calls).evaluateMutation lib m).2) ∧
    (∀ fence d state, (Registry.after lib calls).fence? fence = some (d, state) →
      d.target? = none → ∀ later, (∀ call ∈ later, ¬ call.Redefines lib fence) →
      ∀ id earlier between rest,
        classifications lib fence id (Registry.after lib calls) later =
          earlier ++ .enter :: (between ++ .enter :: rest) → DetectType.exit ∈ between) ∧
    (∀ failing d state, (Registry.after lib calls).fence? failing = some (d, state) →
      ∀ (m : Mutation) error, m.evaluate lib failing.name failing.hook? d state = .error error →
        ((Registry.after lib calls).evaluateMutation lib m).2 =
          (((Registry.after lib calls).without failing).evaluateMutation lib m).2 ∧
        ∀ fence, fence ≠ failing →
          ((Registry.after lib calls).evaluateMutation lib m).1.fence? fence =
            (((Registry.after lib calls).without failing).evaluateMutation lib m).1.fence? fence) := by
  have hindexed := Registry.indexed_after lib calls
  refine ⟨?_, ?_, ?_⟩
  · intro fence d before hfence hstatic m
    refine ⟨m.next lib fence.name fence.hook? d before, ?_, hindexed.staticStep lib m hfence hstatic⟩
    rw [hindexed.fence?_evaluateMutation, hfence, Option.map_some]
  · intro fence d state hfence hstatic later hkeep id earlier between rest hsplit
    have hthreads := hindexed.threads hfence hstatic hkeep id
    rw [hsplit] at hthreads
    exact hthreads.exit_between
  · intro failing d state hfence m error hfails
    refine ⟨(hindexed.events_without hfence hfails).symm, fun fence hne => ?_⟩
    rw [hindexed.fence?_evaluateMutation, (hindexed.without failing).fence?_evaluateMutation,
      Registry.fence?_without _ hne]

namespace Zone

def everywhere : FenceLib where
  toGeoLib := .blank
  globMatch := fun pattern text => pattern == text
  haversineDistanceMeters := fun _ _ _ _ => F64.zero
  containsGeo := fun _ _ => .ok true
  intersectsGeo := fun _ _ => .ok true
  intersectsSegment := fun _ _ _ => .ok false
  matchesCandidate := fun _ _ => .ok true
  validateOptions := fun _ => .ok ()

def zone : GeofenceDef where
  collection := "fleet"
  query := .within (.circle F64.zero F64.zero F64.zero) {}
  detect := []
  commands := []

def arrival : Mutation where
  event :=
    { command := .set, collection := "fleet", id := "truck", before := none
      after := some { id := "truck", geo := .string "idle", fields := ∅, expiresAt := none }
      timestampNs := 0 }
  lookup := fun _ => []
  order := id

theorem arrival_enters :
    transition everywhere zone {} arrival.event = .ok .enter ∧
    ∃ after, ((Registry.after everywhere [.setChannel "zone" zone]).evaluateMutation everywhere
        arrival).1.fence? (.channel "zone") = some (zone, after) ∧
      StaticStep everywhere arrival (.channel "zone") zone {} after
        ((Registry.after everywhere [.setChannel "zone" zone]).evaluateMutation everywhere
          arrival).2 :=
  ⟨rfl, (static_fence_transitions everywhere [.setChannel "zone" zone]).1 (.channel "zone") zone {}
    rfl rfl arrival⟩

end Zone

end LatLng.Geofence
