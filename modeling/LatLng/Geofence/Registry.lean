import LatLng.Index.SpatialIndex

/-! Geofence definitions and the registry that holds them, with the state each fence keeps
about objects and pairs. Evaluation is split as in the source: `prepareMutation` computes
the updates and events of a mutation, `applyPreparedMutation` installs them. Delivery to
subscribers is left out. -/

namespace LatLng.Geofence

open Geo Index Std ExtTreeMap

inductive MutationCommand where
  | set
  | del
  | drop
  | fset
deriving DecidableEq, Repr

inductive DetectType where
  | inside
  | outside
  | enter
  | exit
  | cross
  | roam
deriving DecidableEq, Repr

inductive GeofenceQuery where
  | nearby (lat lon meters : F64) (options : SearchOptions)
  | within (area : Area) (options : SearchOptions)
  | intersects (area : Area) (options : SearchOptions)
  | roam (targetCollection targetPattern : String) (meters : F64) (options : SearchOptions)
      (nodwell : Bool)

structure GeofenceDef where
  collection : String
  query : GeofenceQuery
  detect : List DetectType
  commands : List MutationCommand

inductive GeofenceError where
  | geo (error : GeoError)
  | index (error : IndexError)
deriving DecidableEq, Repr

structure RoamingInfo where
  collection : String
  id : String
  meters : F64

structure GeofenceEvent where
  command : MutationCommand
  detect : DetectType
  collection : String
  id : String
  object : GeoType
  fields : FieldMap
  timestampNs : Nat
  eventId : Option String
  jobId : Option String
  hook : Option String
  group : Option String
  nearby : Option RoamingInfo

structure MutationEvent where
  command : MutationCommand
  collection : String
  id : String
  before : Option Object
  after : Option Object
  timestampNs : Nat

/-- Third-party and floating-point parts of evaluation: glob patterns, distances, and the
geometric predicates of areas and filters. -/
structure FenceLib extends GeoLib where
  globMatch : String → String → Bool
  haversineDistanceMeters : F64 → F64 → F64 → F64 → F64
  containsGeo : Area → GeoType → Except GeoError Bool
  intersectsGeo : Area → GeoType → Except GeoError Bool
  /-- Whether the area's geometry meets the segment between two positions. -/
  intersectsSegment : Area → F64 × F64 → F64 × F64 → Except GeoError Bool
  matchesCandidate : Object → SearchOptions → Except IndexError Bool
  validateOptions : SearchOptions → Except IndexError Unit

abbrev PairMap := ExtTreeMap (String × String) Bool Lib.pairCmp

structure StoredState where
  objects : ExtTreeMap String Bool := ∅
  pairs : PairMap := ∅

inductive StoredStateUpdate where
  | none
  | object (id : String) (inside : Option Bool)
  | replace (next : StoredState)

def StoredStateUpdate.apply : StoredStateUpdate → StoredState → StoredState
  | .none, state => state
  | .object id (some inside), state => { state with objects := state.objects.insert id inside }
  | .object id .none, state => { state with objects := state.objects.erase id }
  | .replace next, _ => next

structure PreparedMutation where
  channelStates : List (String × StoredStateUpdate)
  hookStates : List (String × StoredStateUpdate)
  events : List GeofenceEvent
  evalErrors : Nat

/-! ### Tables of named fences

Channels and hooks are kept alike; a hook also has an endpoint. -/

structure Stored (ε : Type) where
  endpoint : ε
  def_ : GeofenceDef
  state : StoredState

abbrev NameIndex := ExtTreeMap String (List String)

def pushIndexName (index : NameIndex) (collection name : String) : NameIndex :=
  let names := index[collection]?.getD []
  index.insert collection (if name ∈ names then names else names ++ [name])

def hasIndexedNames (index : NameIndex) (collection : String) : Bool :=
  (index[collection]?.getD []) ≠ []

def removeIndexName (index : NameIndex) (collection name : String) : NameIndex :=
  match index[collection]? with
  | none => index
  | some names =>
    let names := names.filter (· ≠ name)
    if names = [] then index.erase collection else index.insert collection names

def GeofenceDef.target? (d : GeofenceDef) : Option String :=
  match d.query with
  | .roam targetCollection _ _ _ _ => some targetCollection
  | _ => none

structure FenceTable (ε : Type) where
  fences : ExtTreeMap String (Stored ε) := ∅
  byCollection : NameIndex := ∅
  byTargetCollection : NameIndex := ∅

namespace FenceTable

variable {ε : Type}

def insertIndexes (t : FenceTable ε) (name : String) (d : GeofenceDef) : FenceTable ε :=
  { t with
    byCollection := pushIndexName t.byCollection d.collection name
    byTargetCollection := match d.target? with
      | some target => pushIndexName t.byTargetCollection target name
      | none => t.byTargetCollection }

def removeIndexes (t : FenceTable ε) (name : String) (d : GeofenceDef) : FenceTable ε :=
  { t with
    byCollection := removeIndexName t.byCollection d.collection name
    byTargetCollection := match d.target? with
      | some target => removeIndexName t.byTargetCollection target name
      | none => t.byTargetCollection }

def set (t : FenceTable ε) (name : String) (endpoint : ε) (d : GeofenceDef) : FenceTable ε :=
  let t := match t.fences[name]? with
    | some previous => { t with fences := t.fences.erase name }.removeIndexes name previous.def_
    | none => t
  let t := t.insertIndexes name d
  { t with fences := t.fences.insert name { endpoint, def_ := d, state := {} } }

def del (t : FenceTable ε) (name : String) : FenceTable ε × Bool :=
  match t.fences[name]? with
  | some stored => ({ t with fences := t.fences.erase name }.removeIndexes name stored.def_, true)
  | none => (t, false)

def update (t : FenceTable ε) (states : List (String × StoredStateUpdate)) : FenceTable ε :=
  { t with
    fences := states.foldl
      (fun fences s => fences.modify s.1 fun stored => { stored with state := s.2.apply stored.state })
      t.fences }

/-- The names indexed under a collection as fence or as roaming target, each once. -/
def relevantNames (t : FenceTable ε) (collection : String) : List String :=
  let own := t.byCollection[collection]?.getD []
  let targets := t.byTargetCollection[collection]?.getD []
  (own ++ targets).foldl (fun names name => if name ∈ names then names else names ++ [name]) []

def sideEffects (t : FenceTable ε) (collection : String) : Bool :=
  hasIndexedNames t.byCollection collection || hasIndexedNames t.byTargetCollection collection

def defs (t : FenceTable ε) : ExtTreeMap String (ε × GeofenceDef) :=
  t.fences.map fun _ stored => (stored.endpoint, stored.def_)

end FenceTable

structure Registry where
  channels : FenceTable Unit := {}
  hooks : FenceTable String := {}
  crossCollectionRoamingCollections : ExtTreeSet String := ∅
  generation : Nat := 0
  evalErrorsTotal : Nat := 0

namespace Registry

def refreshCrossCollectionRoamingCollections (r : Registry) : Registry :=
  let defs := r.channels.fences.values.map Stored.def_ ++ r.hooks.fences.values.map Stored.def_
  { r with
    crossCollectionRoamingCollections := defs.foldl
      (fun names d => match d.target? with
        | some target =>
          if target ≠ d.collection then (names.insert d.collection).insert target else names
        | none => names) ∅ }

def setChannel (r : Registry) (name : String) (d : GeofenceDef) : Registry :=
  refreshCrossCollectionRoamingCollections { r with channels := r.channels.set name () d }

def setHook (r : Registry) (name endpoint : String) (d : GeofenceDef) : Registry :=
  refreshCrossCollectionRoamingCollections { r with hooks := r.hooks.set name endpoint d }

def delChannel (r : Registry) (name : String) : Registry × Bool :=
  match r.channels.del name with
  | (channels, true) => (refreshCrossCollectionRoamingCollections { r with channels }, true)
  | (_, false) => (r, false)

def delHook (r : Registry) (name : String) : Registry × Bool :=
  match r.hooks.del name with
  | (hooks, true) => (refreshCrossCollectionRoamingCollections { r with hooks }, true)
  | (_, false) => (r, false)

def pdelChannel (lib : FenceLib) (r : Registry) (pattern : String) : Registry × Nat :=
  let names := r.channels.fences.keys.filter (lib.globMatch pattern)
  (names.foldl (fun r name => (r.delChannel name).1) r, names.length)

def pdelHook (lib : FenceLib) (r : Registry) (pattern : String) : Registry × Nat :=
  let names := r.hooks.fences.keys.filter (lib.globMatch pattern)
  (names.foldl (fun r name => (r.delHook name).1) r, names.length)

def channelDefs (r : Registry) : List (String × GeofenceDef) :=
  r.channels.fences.toList.map fun c => (c.1, c.2.def_)

def hookDefs (r : Registry) : List (String × String × GeofenceDef) :=
  r.hooks.fences.toList.map fun h => (h.1, h.2.endpoint, h.2.def_)

def clearAll (r : Registry) : Registry where
  generation := r.generation + 1
  evalErrorsTotal := r.evalErrorsTotal

def requiresExclusiveRoamPath (r : Registry) (collection : String) : Bool :=
  r.crossCollectionRoamingCollections.contains collection

def hasRelevantSideEffects (r : Registry) (collection : String) : Bool :=
  r.channels.sideEffects collection || r.hooks.sideEffects collection

def applyPreparedMutation (r : Registry) (prepared : PreparedMutation) : Registry :=
  { r with
    evalErrorsTotal := r.evalErrorsTotal + prepared.evalErrors
    channels := r.channels.update prepared.channelStates
    hooks := r.hooks.update prepared.hookStates }

end Registry

/-! ### What the operations define -/

namespace FenceTable

variable {ε : Type} (t : FenceTable ε)

theorem getElem?_defs (name : String) :
    t.defs[name]? = t.fences[name]?.map fun stored => (stored.endpoint, stored.def_) := by
  simp [defs]

@[simp] theorem fences_insertIndexes (name : String) (d : GeofenceDef) :
    (t.insertIndexes name d).fences = t.fences := rfl

@[simp] theorem fences_removeIndexes (name : String) (d : GeofenceDef) :
    (t.removeIndexes name d).fences = t.fences := rfl

@[simp] theorem defs_set (name : String) (endpoint : ε) (d : GeofenceDef) :
    (t.set name endpoint d).defs = t.defs.insert name (endpoint, d) := by
  apply ext_getElem?
  intro other
  rw [getElem?_defs, getElem?_insert, getElem?_defs, set]
  cases t.fences[name]? with
  | none => by_cases h : name = other <;> simp [h, getElem?_insert]
  | some previous =>
    by_cases h : name = other <;>
      simp [h, getElem?_insert, getElem?_erase]

@[simp] theorem defs_del (name : String) : (t.del name).1.defs = t.defs.erase name := by
  apply ext_getElem?
  intro other
  rw [getElem?_defs, getElem?_erase, getElem?_defs, del]
  cases h : t.fences[name]? with
  | none =>
    by_cases ho : name = other
    · subst ho
      simp [h]
    · simp [ho]
  | some stored => by_cases ho : name = other <;> simp [ho, getElem?_erase]

theorem getElem?_defs_foldl_del (names : List String) (name : String) :
    (names.foldl (fun t n => (t.del n).1) t).defs[name]? =
      if name ∈ names then none else t.defs[name]? := by
  induction names generalizing t with
  | nil => simp
  | cons n names ih =>
    rw [List.foldl_cons, ih, defs_del, getElem?_erase]
    by_cases hn : n = name <;> by_cases hm : name ∈ names <;> simp [hn, hm, Ne.symm]

theorem defs_foldl_del (p : String → Bool) :
    ((t.fences.keys.filter p).foldl (fun t n => (t.del n).1) t).defs =
      t.defs.filter fun name _ => !p name := by
  apply ext_getElem?
  intro name
  rw [getElem?_defs_foldl_del, getElem?_defs]
  by_cases hp : p name
  · cases h : t.fences[name]? with
    | none => simp [getElem?_filter, getElem?_defs, h]
    | some stored =>
      have hmem : name ∈ t.fences := mem_iff_isSome_getElem?.2 (by simp [h])
      simp [getElem?_filter, getElem?_defs, hp, hmem]
  · cases h : t.fences[name]? <;> simp [getElem?_filter, getElem?_defs, h, hp,
      Option.filter]

theorem del_eq_self (name : String) (h : (t.del name).2 = false) : (t.del name).1 = t := by
  rw [del] at h ⊢
  split at h
  · cases h
  · rfl

@[simp] theorem defs_update (states : List (String × StoredStateUpdate)) :
    (t.update states).defs = t.defs := by
  -- one update at a time: changing a fence's state leaves its endpoint and definition
  suffices h : ∀ fences : ExtTreeMap String (Stored ε),
      ({ t with fences := states.foldl (fun fences s => fences.modify s.1 fun stored =>
        { stored with state := s.2.apply stored.state }) fences } : FenceTable ε).defs =
      ({ t with fences } : FenceTable ε).defs from h t.fences
  induction states with
  | nil => exact fun _ => rfl
  | cons s states ih =>
    intro fences
    rw [List.foldl_cons, ih]
    apply ext_getElem?
    intro other
    rw [getElem?_defs, getElem?_defs, getElem?_modify]
    by_cases ho : s.1 = other
    · subst ho
      cases fences[s.1]? <;> simp
    · simp [ho]

end FenceTable

namespace Registry

variable (r : Registry)

@[simp] theorem channels_refresh :
    r.refreshCrossCollectionRoamingCollections.channels = r.channels := rfl

@[simp] theorem hooks_refresh :
    r.refreshCrossCollectionRoamingCollections.hooks = r.hooks := rfl

@[simp] theorem channels_delChannel (name : String) :
    (r.delChannel name).1.channels = (r.channels.del name).1 := by
  rw [delChannel]
  rcases h : r.channels.del name with ⟨channels, _ | _⟩
  · have := r.channels.del_eq_self name (by rw [h])
    rw [h] at this
    exact this.symm
  · rfl

@[simp] theorem hooks_delChannel (name : String) : (r.delChannel name).1.hooks = r.hooks := by
  rw [delChannel]
  rcases r.channels.del name with ⟨channels, _ | _⟩ <;> rfl

@[simp] theorem hooks_delHook (name : String) :
    (r.delHook name).1.hooks = (r.hooks.del name).1 := by
  rw [delHook]
  rcases h : r.hooks.del name with ⟨hooks, _ | _⟩
  · have := r.hooks.del_eq_self name (by rw [h])
    rw [h] at this
    exact this.symm
  · rfl

@[simp] theorem channels_delHook (name : String) : (r.delHook name).1.channels = r.channels := by
  rw [delHook]
  rcases r.hooks.del name with ⟨hooks, _ | _⟩ <;> rfl

theorem channels_foldl_delChannel (names : List String) :
    (names.foldl (fun r n => (r.delChannel n).1) r).channels =
      names.foldl (fun t n => (t.del n).1) r.channels := by
  induction names generalizing r with
  | nil => rfl
  | cons n names ih => rw [List.foldl_cons, List.foldl_cons, ih, channels_delChannel]

theorem hooks_foldl_delChannel (names : List String) :
    (names.foldl (fun r n => (r.delChannel n).1) r).hooks = r.hooks := by
  induction names generalizing r with
  | nil => rfl
  | cons n names ih => rw [List.foldl_cons, ih, hooks_delChannel]

theorem hooks_foldl_delHook (names : List String) :
    (names.foldl (fun r n => (r.delHook n).1) r).hooks =
      names.foldl (fun t n => (t.del n).1) r.hooks := by
  induction names generalizing r with
  | nil => rfl
  | cons n names ih => rw [List.foldl_cons, List.foldl_cons, ih, hooks_delHook]

theorem channels_foldl_delHook (names : List String) :
    (names.foldl (fun r n => (r.delHook n).1) r).channels = r.channels := by
  induction names generalizing r with
  | nil => rfl
  | cons n names ih => rw [List.foldl_cons, ih, channels_delHook]

variable (lib : FenceLib) (pattern : String)

@[simp] theorem hooks_pdelChannel : (r.pdelChannel lib pattern).1.hooks = r.hooks :=
  r.hooks_foldl_delChannel _

@[simp] theorem channels_pdelHook : (r.pdelHook lib pattern).1.channels = r.channels :=
  r.channels_foldl_delHook _

@[simp] theorem defs_pdelChannel : (r.pdelChannel lib pattern).1.channels.defs =
    r.channels.defs.filter fun name _ => !lib.globMatch pattern name := by
  rw [pdelChannel, channels_foldl_delChannel, FenceTable.defs_foldl_del]

@[simp] theorem defs_pdelHook : (r.pdelHook lib pattern).1.hooks.defs =
    r.hooks.defs.filter fun name _ => !lib.globMatch pattern name := by
  rw [pdelHook, hooks_foldl_delHook, FenceTable.defs_foldl_del]

@[simp] theorem defs_applyPreparedMutation_channels (prepared : PreparedMutation) :
    (r.applyPreparedMutation prepared).channels.defs = r.channels.defs :=
  r.channels.defs_update _

@[simp] theorem defs_applyPreparedMutation_hooks (prepared : PreparedMutation) :
    (r.applyPreparedMutation prepared).hooks.defs = r.hooks.defs :=
  r.hooks.defs_update _

end Registry

end LatLng.Geofence
