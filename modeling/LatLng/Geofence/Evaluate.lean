import LatLng.Geofence.Registry
import LatLng.Lib.Except

/-! Evaluation of the fences a mutation touches. Maps iterate in an order that the source
leaves open; `order` picks one for a list of keys. -/

namespace LatLng.Geofence

open Geo Index List

variable (lib : FenceLib)

def matchesCandidate (object : Object) (options : SearchOptions) : Except GeofenceError Bool :=
  (lib.matchesCandidate object options).mapError .index

def objectMatchesQuery (object : Object) (d : GeofenceDef) : Except GeofenceError Bool :=
  match d.query with
  | .nearby lat lon meters options =>
    let near := fun (position : F64 × F64) =>
      (lib.haversineDistanceMeters lat lon position.1 position.2).le meters
    let withinDistance := match object.geo.pointCoordinates with
      | some position => near position
      | none => match object.geo.envelope lib.toGeoLib with
        | .ok (some bounds) => near (bounds.center lib.toGeoLib)
        | _ => false
    if withinDistance then matchesCandidate lib object options else .ok false
  | .within area options => do
    if ← (lib.containsGeo area object.geo).mapError .geo then
      matchesCandidate lib object options
    else .ok false
  | .intersects area options => do
    if ← (lib.intersectsGeo area object.geo).mapError .geo then
      matchesCandidate lib object options
    else .ok false
  | .roam _ _ _ options _ => matchesCandidate lib object options

def crossedBoundary (event : MutationEvent) (d : GeofenceDef) : Except GeofenceError Bool :=
  match event.before.bind (·.geo.pointCoordinates), event.after.bind (·.geo.pointCoordinates) with
  | some before, some after =>
    match d.query with
    | .nearby lat lon meters _ =>
      (lib.intersectsSegment (.circle lat lon meters) before after).mapError .geo
    | .within area _ => (lib.intersectsSegment area before after).mapError .geo
    | .intersects area _ => (lib.intersectsSegment area before after).mapError .geo
    | .roam _ _ _ _ _ => .ok false
  | _, _ => .ok false

def currentlyInside (event : MutationEvent) (d : GeofenceDef) : Except GeofenceError Bool :=
  match event.after with
  | some object => objectMatchesQuery lib object d
  | none => .ok false

/-- Only an object that is and was outside can have crossed the fence. -/
def detectStatic (previousInside currentInside : Bool) (crossed : Except GeofenceError Bool) :
    Except GeofenceError DetectType :=
  if !previousInside && currentInside then .ok .enter
  else if previousInside && currentInside then .ok .inside
  else if previousInside && !currentInside then .ok .exit
  else crossed.map fun crossed => if crossed then .cross else .outside

def evaluateStaticFence (d : GeofenceDef) (state : StoredState) (event : MutationEvent)
    (group hook : Option String) :
    Except GeofenceError (StoredStateUpdate × List GeofenceEvent) :=
  if d.collection ≠ event.collection then .ok (.none, [])
  else do
    let commandAllowed := d.commands = [] ∨ event.command ∈ d.commands
    let previousInside := state.objects[event.id]?.getD false
    let currentInside ← currentlyInside lib event d
    let detect ← detectStatic previousInside currentInside (crossedBoundary lib event d)
    let update := StoredStateUpdate.object event.id (event.after.map fun _ => currentInside)
    let shown := event.after <|> event.before
    if (d.detect = [] ∨ detect ∈ d.detect) ∧ commandAllowed then
      .ok (update, [{
        command := event.command
        detect
        collection := event.collection
        id := event.id
        object := (shown.map Object.geo).getD (.string event.id)
        fields := (shown.map Object.fields).getD ∅
        timestampNs := event.timestampNs
        eventId := none
        jobId := none
        hook
        group
        nearby := none }])
    else .ok (update, [])

structure RoamQuery where
  targetCollection : String
  targetPattern : String
  meters : F64
  options : SearchOptions
  nodwell : Bool

def roamDistanceMeters (source target : Object) (meters : F64) : Option F64 :=
  match source.geo.pointCoordinates, target.geo.pointCoordinates with
  | some s, some t =>
    let distance := lib.haversineDistanceMeters s.1 s.2 t.1 t.2
    if distance.le meters then some distance else none
  | _, _ => none

def roamEvent (event : MutationEvent) (sourceCollection : String) (source : Object)
    (targetCollection targetId : String) (meters : F64) (group hook : Option String) :
    GeofenceEvent where
  command := event.command
  detect := .roam
  collection := sourceCollection
  id := source.id
  object := source.geo
  fields := source.fields
  timestampNs := event.timestampNs
  eventId := none
  jobId := none
  hook := hook
  group := group
  nearby := some { collection := targetCollection, id := targetId, meters }

def clearSourcePairs (state : StoredState) (sourceId : String) : StoredState :=
  { state with pairs := state.pairs.filter fun pair _ => pair.1 ≠ sourceId }

/-- Inserts a pair and tells whether the fence has to report it. -/
def notePair (state : StoredState) (key : String × String) (nodwell : Bool) :
    StoredState × Bool :=
  let wasNear := state.pairs[key]?.getD false
  ({ state with pairs := state.pairs.insert key true }, !(wasNear && nodwell))

variable (order : List String → List String)

def reconcileSourcePairs (state : StoredState) (source : Object) (targets : List Object)
    (q : RoamQuery) (event : MutationEvent) (sourceCollection : String)
    (group hook : Option String) (emit : Bool) :
    Except GeofenceError (StoredState × List GeofenceEvent) := do
  let sourceAllowed ← matchesCandidate lib source q.options
  let currentMatches : Std.ExtTreeMap String F64 :=
    if sourceAllowed then
      targets.foldl (fun found target =>
        if !lib.globMatch q.targetPattern target.id || target.id == source.id then found
        else match roamDistanceMeters lib source target q.meters with
          | some distance => found.insert target.id distance
          | none => found) ∅
    else ∅
  let kept : StoredState :=
    { state with
      pairs := state.pairs.filter fun pair _ => pair.1 ≠ source.id || currentMatches.contains pair.2 }
  .ok <| (order currentMatches.keys).foldl (fun (state, events) targetId =>
    match currentMatches[targetId]? with
    | none => (state, events)
    | some distance =>
      let (state, report) := notePair state (source.id, targetId) q.nodwell
      if emit && report then
        (state, events ++ [roamEvent event sourceCollection source q.targetCollection targetId
          distance group hook])
      else (state, events)) (kept, [])

def reconcileTargetPair (state : StoredState) (source : Object) (targets : List Object)
    (targetId : Option String) (q : RoamQuery) (event : MutationEvent)
    (sourceCollection : String) (group hook : Option String) (emit : Bool) :
    Except GeofenceError (StoredState × List GeofenceEvent) :=
  match targetId with
  | none => .ok (state, [])
  | some targetId => do
    let key := (source.id, targetId)
    let dropped : StoredState := { state with pairs := state.pairs.erase key }
    if ← matchesCandidate lib source q.options then
      let found := targets.findSome? fun target =>
        if target.id == source.id then none
        else (roamDistanceMeters lib source target q.meters).map fun distance => (target, distance)
      match found with
      | none => .ok (dropped, [])
      | some (target, distance) =>
        let (state, report) := notePair state key q.nodwell
        if emit && report then
          .ok (state, [roamEvent event sourceCollection source q.targetCollection target.id
            distance group hook])
        else .ok (state, [])
    else .ok (dropped, [])

def reconcileTargetPairs (targets : List Object) (targetId : Option String) (q : RoamQuery)
    (event : MutationEvent) (sourceCollection : String) (group hook : Option String)
    (emit : Bool) : List Object → StoredState × List GeofenceEvent →
      Except GeofenceError (StoredState × List GeofenceEvent)
  | [], found => .ok found
  | source :: sources, (state, events) =>
    match reconcileTargetPair lib state source targets targetId q event sourceCollection group hook
        emit with
    | .error e => .error e
    | .ok (state, more) =>
      reconcileTargetPairs targets targetId q event sourceCollection group hook emit sources
        (state, events ++ more)

def evaluateRoamingFence (d : GeofenceDef) (state : StoredState) (event : MutationEvent)
    (group hook : Option String) (q : RoamQuery) (lookup : String → List Object) :
    Except GeofenceError (StoredState × List GeofenceEvent) :=
  if event.collection ≠ d.collection ∧ event.collection ≠ q.targetCollection then
    .ok (state, [])
  else
    let commandAllowed := d.commands = [] ∨ event.command ∈ d.commands
    let detectAllowed := d.detect = [] ∨ .roam ∈ d.detect
    let emit := decide (commandAllowed ∧ detectAllowed)
    if event.collection = d.collection then
      match event.after with
      | none => .ok (clearSourcePairs state event.id, [])
      | some source =>
        reconcileSourcePairs lib order state source (lookup q.targetCollection) q event
          d.collection group hook emit
    else
      let targets := event.after.toList.filter fun object => lib.globMatch q.targetPattern object.id
      let targetId := (event.before <|> event.after).map Object.id
      reconcileTargetPairs lib targets targetId q event d.collection group hook emit
        (lookup d.collection) (state, [])

def evaluateStoredFence (d : GeofenceDef) (state : StoredState) (event : MutationEvent)
    (group hook : Option String) (lookup : String → List Object) :
    Except GeofenceError (StoredStateUpdate × List GeofenceEvent) :=
  match d.query with
  | .roam targetCollection targetPattern meters options nodwell => do
    let (next, events) ← evaluateRoamingFence lib order d state event group hook
      { targetCollection, targetPattern, meters, options, nodwell } lookup
    .ok (.replace next, events)
  | _ => evaluateStaticFence lib d state event group hook

/-- One pass over the relevant fences of a table. A fence that fails to evaluate is counted
and skipped. -/
def prepareFences {ε : Type} (t : FenceTable ε) (asHook : Bool) (event : MutationEvent)
    (lookup : String → List Object) :
    List (String × StoredStateUpdate) × List GeofenceEvent × Nat :=
  (t.relevantNames event.collection).foldl (fun (states, events, errors) name =>
    match t.fences[name]? with
    | none => (states, events, errors)
    | some stored =>
      match evaluateStoredFence lib order stored.def_ stored.state event (some name)
          (if asHook then some name else none) lookup with
      | .ok (update, produced) => (states ++ [(name, update)], events ++ produced, errors)
      | .error _ => (states, events, errors + 1)) ([], [], 0)

def Registry.prepareMutation (r : Registry) (event : MutationEvent)
    (lookup : String → List Object) : PreparedMutation :=
  let (channelStates, channelEvents, channelErrors) :=
    prepareFences lib order r.channels false event lookup
  let (hookStates, hookEvents, hookErrors) := prepareFences lib order r.hooks true event lookup
  { channelStates, hookStates
    events := channelEvents ++ hookEvents
    evalErrors := channelErrors + hookErrors }

/-! ### The labels of an event

Every event carries the group and the hook it was evaluated under. -/

variable {lib order} {state : StoredState} {event : MutationEvent} {group hook : Option String}

theorem evaluateStaticFence_labels {d : GeofenceDef} {r : StoredStateUpdate × List GeofenceEvent}
    (h : evaluateStaticFence lib d state event group hook = .ok r) :
    ∀ e ∈ r.2, e.hook = hook ∧ e.group = group := by
  rw [evaluateStaticFence] at h
  split at h
  · cases h
    exact fun _ he => absurd he not_mem_nil
  · simp only [bind, Except.bind] at h
    split at h
    · cases h
    · split at h
      · cases h
      · split at h <;> cases h
        · intro e he
          cases mem_singleton.1 he
          exact ⟨rfl, rfl⟩
        · exact fun _ he => absurd he not_mem_nil

variable {targets : List Object} {q : RoamQuery} {sourceCollection : String} {emit : Bool}
  {r : StoredState × List GeofenceEvent}

theorem reconcileSourcePairs_labels {source : Object}
    (h : reconcileSourcePairs lib order state source targets q event sourceCollection group hook
      emit = .ok r) : ∀ e ∈ r.2, e.hook = hook ∧ e.group = group := by
  rw [reconcileSourcePairs] at h
  simp only [bind, Except.bind] at h
  split at h
  · cases h
  · cases h
    refine @foldlRecOn _ _
      (fun r : StoredState × List GeofenceEvent => ∀ e ∈ r.2, e.hook = hook ∧ e.group = group) _ _ _
      (fun _ he => absurd he not_mem_nil) ?_
    rintro ⟨s, events⟩ hevents targetId -
    split
    · exact hevents
    · split
      · intro e he
        rcases mem_append.1 he with he | he
        · exact hevents e he
        · cases mem_singleton.1 he
          exact ⟨rfl, rfl⟩
      · exact hevents

variable {targetId : Option String}

theorem reconcileTargetPair_labels {source : Object}
    (h : reconcileTargetPair lib state source targets targetId q event sourceCollection group hook
      emit = .ok r) : ∀ e ∈ r.2, e.hook = hook ∧ e.group = group := by
  have hnone : ∀ e ∈ ([] : List GeofenceEvent), e.hook = hook ∧ e.group = group :=
    fun _ he => absurd he not_mem_nil
  unfold reconcileTargetPair at h
  split at h
  · cases h
    exact hnone
  · simp only [bind, Except.bind] at h
    split at h
    · cases h
    · split at h
      · split at h
        · cases h
          exact hnone
        · split at h <;> cases h
          · intro e he
            cases mem_singleton.1 he
            exact ⟨rfl, rfl⟩
          · exact hnone
      · cases h
        exact hnone

theorem reconcileTargetPairs_labels {sources : List Object}
    {s : StoredState × List GeofenceEvent} (hs : ∀ e ∈ s.2, e.hook = hook ∧ e.group = group)
    (h : reconcileTargetPairs lib targets targetId q event sourceCollection group hook emit
      sources s = .ok r) : ∀ e ∈ r.2, e.hook = hook ∧ e.group = group := by
  induction sources generalizing s with
  | nil =>
    cases h
    exact hs
  | cons source sources ih =>
    rw [reconcileTargetPairs] at h
    split at h
    · cases h
    next state more hpair =>
      refine ih ?_ h
      intro e he
      rcases mem_append.1 he with he | he
      · exact hs e he
      · exact reconcileTargetPair_labels hpair e he

variable {lookup : String → List Object}

theorem evaluateStoredFence_labels {d : GeofenceDef} {r : StoredStateUpdate × List GeofenceEvent}
    (h : evaluateStoredFence lib order d state event group hook lookup = .ok r) :
    ∀ e ∈ r.2, e.hook = hook ∧ e.group = group := by
  have hnone : ∀ e ∈ ([] : List GeofenceEvent), e.hook = hook ∧ e.group = group :=
    fun _ he => absurd he not_mem_nil
  rw [evaluateStoredFence] at h
  split at h
  next targetCollection targetPattern meters options nodwell hquery =>
    obtain ⟨next, hroam, h⟩ := Lib.bind_eq_ok.1 h
    cases h
    rw [evaluateRoamingFence] at hroam
    split at hroam
    · cases hroam
      exact hnone
    · dsimp only at hroam
      split at hroam
      · split at hroam
        · cases hroam
          exact hnone
        · exact reconcileSourcePairs_labels hroam
      · exact reconcileTargetPairs_labels hnone hroam
  · exact evaluateStaticFence_labels h

theorem prepareFences_labels {ε : Type} {t : FenceTable ε} {asHook : Bool} :
    ∀ e ∈ (prepareFences lib order t asHook event lookup).2.1,
      ∃ name, t.fences[name]?.isSome ∧ (e.hook = if asHook then some name else none) ∧
        e.group = some name := by
  refine @foldlRecOn _ _
    (fun r : List (String × StoredStateUpdate) × List GeofenceEvent × Nat => ∀ e ∈ r.2.1,
      ∃ name, t.fences[name]?.isSome ∧ (e.hook = if asHook then some name else none) ∧
        e.group = some name) _ _ _
    (fun _ he => absurd he not_mem_nil) ?_
  rintro ⟨states, events, errors⟩ hevents name -
  dsimp only
  split
  · exact hevents
  next stored hstored =>
    split
    next update produced hok =>
      intro e he
      rcases mem_append.1 he with he | he
      · exact hevents e he
      · exact ⟨name, by rw [hstored]; rfl, evaluateStoredFence_labels hok e he⟩
    · exact hevents

theorem Registry.prepareMutation_hook {r : Registry} {name : String}
    {e : GeofenceEvent} (he : e ∈ (r.prepareMutation lib order event lookup).events)
    (hhook : e.hook = some name) : ∃ stored, r.hooks.fences[name]? = some stored := by
  rcases mem_append.1 he with he | he
  · obtain ⟨_, -, hnone, -⟩ := prepareFences_labels e he
    rw [hhook] at hnone
    cases hnone
  · obtain ⟨other, hsome, hname, -⟩ := prepareFences_labels e he
    rw [hhook] at hname
    cases hname
    exact Option.isSome_iff_exists.1 hsome

end LatLng.Geofence
