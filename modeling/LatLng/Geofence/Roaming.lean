import LatLng.Geofence.Static

/-! Roaming fences over two collections. A write of a source and a write of a target are
reconciled by different procedures; for both, what the fence remembers afterwards and which pairs
it reports are said in terms of the pairs that are near. -/

namespace LatLng.Geofence

open Geo Index Std List Mutation
open ExtTreeMap (mem_iff_isSome_getElem?)

variable {lib : FenceLib}

/-- The test of a pair: the ids differ, the source passes the options, the target has a name
that the pattern matches, and both are points within the distance. -/
structure RoamQuery.Near (lib : FenceLib) (q : RoamQuery) (source target : Object) : Prop where
  ids : target.id ≠ source.id
  allowed : lib.matchesCandidate source q.options = .ok true
  pattern : lib.globMatch q.targetPattern target.id = true
  distance : (roamDistanceMeters lib source target q.meters).isSome = true

def RoamQuery.isNear (lib : FenceLib) (q : RoamQuery) (source target : Object) : Bool :=
  target.id != source.id && (lib.matchesCandidate source q.options).toOption == some true &&
    lib.globMatch q.targetPattern target.id &&
    (roamDistanceMeters lib source target q.meters).isSome

variable {q : RoamQuery}

theorem RoamQuery.isNear_iff {source target : Object} :
    q.isNear lib source target = true ↔ q.Near lib source target := by
  have hallowed : (lib.matchesCandidate source q.options).toOption = some true ↔
      lib.matchesCandidate source q.options = .ok true := by
    cases lib.matchesCandidate source q.options <;> simp [Except.toOption]
  simp only [isNear, Bool.and_eq_true, bne_iff_ne, beq_iff_eq, hallowed]
  constructor
  · rintro ⟨⟨⟨hids, hallow⟩, hpattern⟩, hdistance⟩
    exact ⟨hids, hallow, hpattern, hdistance⟩
  · exact fun h => ⟨⟨⟨h.ids, h.allowed⟩, h.pattern⟩, h.distance⟩

def StoredState.Sound (state : StoredState) : Prop :=
  ∀ key : String × String, state.pairs[key]? ≠ some false

theorem StoredState.Sound.getD_eq {state : StoredState} (h : state.Sound) (key : String × String) :
    state.pairs[key]?.getD false = true ↔ key ∈ state.pairs := by
  rw [mem_iff_isSome_getElem?]
  have hkey := h key
  rcases hget : state.pairs[key]? with _ | _ | _
  · simp
  · exact absurd hget hkey
  · simp

def GeofenceEvent.pair? (event : GeofenceEvent) : Option (String × String) :=
  event.nearby.map fun nearby => (event.id, nearby.id)

theorem pairs_notePair (state : StoredState) (pair : String × String) (nodwell : Bool)
    (key : String × String) : (notePair state pair nodwell).1.pairs[key]? =
      if pair = key then some true else state.pairs[key]? := by
  rw [notePair, ExtTreeMap.getElem?_insert]
  by_cases hkey : pair = key <;> simp [hkey]

theorem count_map_some {α β : Type} [BEq β] [LawfulBEq β] {l : List α} {f : α → β}
    (h : (l.map f).Nodup) (b : β) :
    (l.map fun a => some (f a)).count (some b) = if b ∈ l.map f then 1 else 0 := by
  have hmap : (l.map fun a => some (f a)) = (l.map f).map some := by simp
  rw [hmap, count_map_of_injective _ _ (Option.some_injective β), h.count]

theorem matchesCandidate_eq_ok {object : Object} {options : SearchOptions} {b : Bool}
    (h : lib.matchesCandidate object options = .ok b) :
    matchesCandidate lib object options = .ok b := by
  rw [matchesCandidate, h]
  rfl

/-! ### Writing a source -/

section Source

variable {q : RoamQuery} {source : Object} {targets : List Object}

variable (lib q source) in
def nearEntry (target : Object) : Option (String × F64) :=
  if !lib.globMatch q.targetPattern target.id || target.id == source.id then none
  else (roamDistanceMeters lib source target q.meters).map fun distance => (target.id, distance)

variable (lib q source targets) in
def currentMatches (allowed : Bool) : ExtTreeMap String F64 :=
  if allowed then
    targets.foldl (fun found target =>
      if !lib.globMatch q.targetPattern target.id || target.id == source.id then found
      else match roamDistanceMeters lib source target q.meters with
        | some distance => found.insert target.id distance
        | none => found) ∅
  else ∅

theorem currentMatches_eq :
    currentMatches lib q source targets true =
      (targets.filterMap (nearEntry lib q source)).foldl (fun m e => m.insert e.1 e.2) ∅ := by
  rw [currentMatches, if_pos rfl]
  generalize (∅ : ExtTreeMap String F64) = found
  induction targets generalizing found with
  | nil => rfl
  | cons target targets ih =>
    rw [foldl_cons, filterMap_cons, nearEntry]
    by_cases hskip : (!lib.globMatch q.targetPattern target.id || target.id == source.id) = true
    · simp only [if_pos hskip]
      exact ih found
    · simp only [if_neg hskip]
      cases roamDistanceMeters lib source target q.meters with
      | none => exact ih found
      | some distance => exact ih _

variable {allowed : Bool} {order : List String → List String}

theorem mem_currentMatches (hids : (targets.map Object.id).Nodup)
    (hallowed : lib.matchesCandidate source q.options = .ok allowed) (t : String) :
    t ∈ currentMatches lib q source targets allowed ↔
      ∃ target ∈ targets, target.id = t ∧ q.Near lib source target := by
  cases allowed with
  | false =>
    refine ⟨fun h => absurd h ExtTreeMap.not_mem_empty, ?_⟩
    rintro ⟨target, -, -, hnear⟩
    cases hallowed.symm.trans hnear.allowed
  | true =>
    have hkeys : ((targets.filterMap (nearEntry lib q source)).map Prod.fst).Nodup := by
      refine hids.sublist ?_
      clear hids
      induction targets with
      | nil => exact .slnil
      | cons target targets ih =>
        rw [filterMap_cons]
        cases hentry : nearEntry lib q source target with
        | none => exact ih.cons _
        | some entry =>
          have hid : entry.1 = target.id := by
            rw [nearEntry] at hentry
            split at hentry
            · cases hentry
            · obtain ⟨distance, -, rfl⟩ := Option.map_eq_some_iff.1 hentry
              rfl
          rw [map_cons, map_cons, hid]
          exact ih.cons_cons _
    rw [mem_iff_isSome_getElem?, Option.isSome_iff_exists, currentMatches_eq]
    simp only [Lib.getElem?_foldl_insert hkeys, mem_filterMap]
    constructor
    · rintro ⟨distance, target, hmem, hentry⟩
      rw [nearEntry] at hentry
      split at hentry
      · cases hentry
      next hskip =>
        obtain ⟨distance', hdistance, heq⟩ := Option.map_eq_some_iff.1 hentry
        cases heq
        simp only [Bool.or_eq_true, not_or, Bool.not_eq_true', Bool.not_eq_false,
          beq_iff_eq] at hskip
        exact ⟨target, hmem, rfl, hskip.2, hallowed, hskip.1, by rw [hdistance]; rfl⟩
    · rintro ⟨target, hmem, rfl, hnear⟩
      obtain ⟨distance, hdistance⟩ := Option.isSome_iff_exists.1 hnear.distance
      refine ⟨distance, target, hmem, ?_⟩
      rw [nearEntry, if_neg (by simp [hnear.pattern, hnear.ids]), hdistance]
      rfl

variable {event : MutationEvent} {sourceCollection : String} {group hook : Option String}
  {emit : Bool}

variable (q source event sourceCollection group hook emit) in
def noteMatch (found : ExtTreeMap String F64) (sofar : StoredState × List GeofenceEvent)
    (targetId : String) : StoredState × List GeofenceEvent :=
  match found[targetId]? with
  | none => sofar
  | some distance =>
    let noted := notePair sofar.1 (source.id, targetId) q.nodwell
    if emit && noted.2 then
      (noted.1, sofar.2 ++ [roamEvent event sourceCollection source q.targetCollection targetId
        distance group hook])
    else (noted.1, sofar.2)

theorem foldl_noteMatch {found : ExtTreeMap String F64} {names : List String}
    (hnodup : names.Nodup) (hfound : ∀ t ∈ names, t ∈ found) (state : StoredState)
    (events : List GeofenceEvent) :
    let result := names.foldl
      (noteMatch q source event sourceCollection group hook emit found) (state, events)
    (∀ key : String × String, result.1.pairs[key]? =
      if key.1 = source.id ∧ key.2 ∈ names then some true else state.pairs[key]?) ∧
    result.2.map GeofenceEvent.pair? = events.map GeofenceEvent.pair? ++
      (names.filter fun t =>
        emit && !(state.pairs[(source.id, t)]?.getD false && q.nodwell)).map
        fun t => some (source.id, t) := by
  induction names generalizing state events with
  | nil => simp
  | cons name names ih =>
    obtain ⟨hname, hnames⟩ := nodup_cons.1 hnodup
    obtain ⟨hin, hrest⟩ := forall_mem_cons.1 hfound
    obtain ⟨distance, hdistance⟩ :=
      Option.isSome_iff_exists.1 (mem_iff_isSome_getElem?.1 hin)
    -- a later name is looked up in the pairs as they were before this one was noted
    have hlater : ∀ t ∈ names,
        (notePair state (source.id, name) q.nodwell).1.pairs[(source.id, t)]? =
          state.pairs[(source.id, t)]? := by
      intro t ht
      rw [pairs_notePair, if_neg]
      rintro heq
      cases heq
      exact hname ht
    have hfilter : (names.filter fun t => emit &&
        !((notePair state (source.id, name) q.nodwell).1.pairs[(source.id, t)]?.getD false &&
          q.nodwell)) = names.filter fun t =>
        emit && !(state.pairs[(source.id, t)]?.getD false && q.nodwell) :=
      filter_congr fun t ht => by rw [hlater t ht]
    have hkeys : ∀ key : String × String,
        (if key.1 = source.id ∧ key.2 ∈ names then some true
          else if (source.id, name) = key then some true else state.pairs[key]?) =
        if key.1 = source.id ∧ key.2 ∈ name :: names then some true else state.pairs[key]? := by
      rintro ⟨s, t⟩
      by_cases hs : s = source.id
      · subst hs
        by_cases ht : t ∈ names
        · simp [ht]
        · by_cases hn : name = t
          · simp [hn]
          · simp [ht, hn, Ne.symm hn]
      · simp [hs, Ne.symm hs]
    have hreport : (notePair state (source.id, name) q.nodwell).2 =
        !(state.pairs[(source.id, name)]?.getD false && q.nodwell) := rfl
    rw [foldl_cons, noteMatch, hdistance]
    simp only [hreport, filter_cons]
    split
    next hemit =>
      obtain ⟨hmap, hevents⟩ := ih hnames hrest (notePair state (source.id, name) q.nodwell).1
        (events ++ [roamEvent event sourceCollection source q.targetCollection name distance group
          hook])
      refine ⟨fun key => ?_, ?_⟩
      · rw [hmap, pairs_notePair, hkeys]
      · rw [hevents, hfilter, map_append, append_assoc]
        rfl
    next hemit =>
      obtain ⟨hmap, hevents⟩ := ih hnames hrest (notePair state (source.id, name) q.nodwell).1
        events
      refine ⟨fun key => ?_, ?_⟩
      · rw [hmap, pairs_notePair, hkeys]
      · rw [hevents, hfilter]

theorem reconcileSourcePairs_eq {state : StoredState}
    (hallowed : lib.matchesCandidate source q.options = .ok allowed) :
    reconcileSourcePairs lib order state source targets q event sourceCollection group hook emit =
      .ok ((order (currentMatches lib q source targets allowed).keys).foldl
        (noteMatch q source event sourceCollection group hook emit
          (currentMatches lib q source targets allowed))
        ({ state with
          pairs := state.pairs.filter fun pair _ =>
            pair.1 ≠ source.id || (currentMatches lib q source targets allowed).contains pair.2 },
          [])) := by
  rw [reconcileSourcePairs, matchesCandidate_eq_ok hallowed]
  rfl

variable (event sourceCollection group hook emit) in
theorem reconcileSourcePairs_spec
    (horder : ∀ names, (order names).Perm names) (hids : (targets.map Object.id).Nodup)
    {state : StoredState} (hsound : state.Sound)
    (hallowed : lib.matchesCandidate source q.options = .ok allowed) :
    ∃ next events, reconcileSourcePairs lib order state source targets q event sourceCollection
        group hook emit = .ok (next, events) ∧ next.Sound ∧
      (∀ s t, (s, t) ∈ next.pairs ↔ if s = source.id then
        ∃ target ∈ targets, target.id = t ∧ q.Near lib source target else (s, t) ∈ state.pairs) ∧
      (q.nodwell → ∀ s t, (events.map GeofenceEvent.pair?).count (some (s, t)) =
        if emit ∧ (s, t) ∉ state.pairs ∧ (s, t) ∈ next.pairs then 1 else 0) := by
  have hmem := mem_currentMatches hids hallowed
  rw [reconcileSourcePairs_eq hallowed]
  generalize currentMatches lib q source targets allowed = found at hmem ⊢
  have hperm := horder found.keys
  have hnodup : (order found.keys).Nodup := hperm.nodup_iff.2 ExtTreeMap.nodup_keys
  have hin : ∀ t, t ∈ order found.keys ↔ t ∈ found := fun t => by
    rw [hperm.mem_iff, ExtTreeMap.mem_keys]
  set kept : StoredState := { state with
    pairs := state.pairs.filter fun pair _ => pair.1 ≠ source.id || found.contains pair.2 }
    with hkept
  have hkeptGet : ∀ key : String × String, kept.pairs[key]? =
      if key.1 ≠ source.id ∨ key.2 ∈ found then state.pairs[key]? else none := by
    intro key
    rw [hkept, Lib.getElem?_filter_keys]
    by_cases hkey : key.1 ≠ source.id ∨ key.2 ∈ found <;> simp [hkey]
  obtain ⟨hpairs, hevents⟩ := @foldl_noteMatch q source event sourceCollection group hook emit found
    _ hnodup (fun t ht => (hin t).1 ht) kept []
  have hnext : ∀ s t, (s, t) ∈ ((order found.keys).foldl
      (noteMatch q source event sourceCollection group hook emit found) (kept, [])).1.pairs ↔
      if s = source.id then t ∈ found else (s, t) ∈ state.pairs := by
    intro s t
    rw [mem_iff_isSome_getElem?, hpairs, hkeptGet]
    simp only [hin]
    by_cases hs : s = source.id
    · by_cases ht : t ∈ found <;> simp [hs, ht]
    · rw [if_neg (fun h => hs h.1), if_pos (.inl hs), if_neg hs,
        ← mem_iff_isSome_getElem?]
  refine ⟨_, _, rfl, ?_, ?_, ?_⟩
  · intro key
    rw [hpairs, hkeptGet]
    have hkey := hsound key
    split
    · simp
    · split
      · exact hkey
      · simp
  · intro s t
    rw [hnext]
    by_cases hs : s = source.id
    · simp only [if_pos hs, hmem]
    · simp only [if_neg hs]
  · intro hdwell s t
    rw [hevents, map_nil, nil_append]
    by_cases hs : s = source.id
    · subst hs
      rw [count_map_some ((hnodup.filter _).map (Prod.mk_right_injective source.id))]
      refine if_congr ?_ rfl rfl
      have hwas : t ∈ found →
          (kept.pairs[(source.id, t)]?.getD false = true ↔ (source.id, t) ∈ state.pairs) := by
        intro ht
        rw [hkeptGet, if_pos (.inr ht), hsound.getD_eq]
      rw [mem_map_of_injective (Prod.mk_right_injective source.id), mem_filter, hin, hnext,
        if_pos rfl]
      simp only [hdwell, Bool.and_true, Bool.and_eq_true, Bool.not_eq_true', ← Bool.not_eq_true]
      constructor
      · rintro ⟨ht, hemit, hnot⟩
        exact ⟨hemit, fun h => hnot ((hwas ht).2 h), ht⟩
      · rintro ⟨hemit, hnot, ht⟩
        exact ⟨ht, hemit, fun h => hnot ((hwas ht).1 h)⟩
    · have hnot : ¬ (emit = true ∧ (s, t) ∉ state.pairs ∧ (s, t) ∈ ((order found.keys).foldl
          (noteMatch q source event sourceCollection group hook emit found)
          (kept, [])).1.pairs) := by
        rw [hnext, if_neg hs]
        exact fun ⟨_, hout, hin⟩ => hout hin
      rw [if_neg hnot, count_eq_zero]
      simp [Ne.symm hs]

end Source

/-! ### Writing or deleting a target -/

section Target

variable {q : RoamQuery} {after : Option Object} {targetId : String} {event : MutationEvent}
  {sourceCollection : String} {group hook : Option String} {emit : Bool}

variable (lib q after targetId emit) in
def PairReconciled (source : Object) (state : StoredState)
    (result : Except GeofenceError (StoredState × List GeofenceEvent)) : Prop :=
  ∃ next events, result = .ok (next, events) ∧
    (∀ key : String × String, next.pairs[key]? =
      if (source.id, targetId) = key then
        if after.any (q.isNear lib source) then some true else none
      else state.pairs[key]?) ∧
    events.map GeofenceEvent.pair? =
      if after.any (q.isNear lib source) && (emit &&
          !(state.pairs[(source.id, targetId)]?.getD false && q.nodwell)) then
        [some (source.id, targetId)] else []

variable (event sourceCollection group hook emit) in
theorem reconcileTargetPair_spec {source : Object} (state : StoredState) {allowed : Bool}
    (hallowed : lib.matchesCandidate source q.options = .ok allowed)
    (hid : ∀ target, after = some target → target.id = targetId) :
    PairReconciled lib q after targetId emit source state (reconcileTargetPair lib state source
      (after.toList.filter fun target => lib.globMatch q.targetPattern target.id) (some targetId) q
      event sourceCollection group hook emit) := by
  have hfar : after.any (q.isNear lib source) = false →
      PairReconciled lib q after targetId emit source state
        (.ok ({ state with pairs := state.pairs.erase (source.id, targetId) }, [])) := by
    intro hnot
    refine ⟨_, _, rfl, fun key => ?_, ?_⟩
    · rw [hnot, ExtTreeMap.getElem?_erase]
      by_cases hkey : (source.id, targetId) = key <;> simp [hkey]
    · rw [hnot]
      rfl
  rw [reconcileTargetPair, matchesCandidate_eq_ok hallowed]
  cases allowed with
  | false =>
    refine hfar ?_
    cases after with
    | none => rfl
    | some target => simp [RoamQuery.isNear, hallowed, Except.toOption]
  | true =>
    cases after with
    | none => exact hfar rfl
    | some target =>
      have htarget := hid target rfl
      have hnear : q.isNear lib source target = (target.id != source.id &&
          lib.globMatch q.targetPattern target.id &&
          (roamDistanceMeters lib source target q.meters).isSome) := by
        simp [RoamQuery.isNear, hallowed, Except.toOption]
      cases hglob : lib.globMatch q.targetPattern target.id with
      | false =>
        have hlist : ((some target).toList.filter fun target =>
            lib.globMatch q.targetPattern target.id) = [] := by simp [hglob]
        rw [hlist]
        exact hfar (by simp [hnear, hglob])
      | true =>
        have hlist : ((some target).toList.filter fun target =>
            lib.globMatch q.targetPattern target.id) = [target] := by simp [hglob]
        rw [hlist]
        by_cases hsame : target.id = source.id
        · have hnot : q.isNear lib source target = false := by simp [hnear, hsame]
          simp only [bind, Except.bind, findSome?, hsame, beq_self_eq_true, if_true]
          exact hfar hnot
        · cases hdistance : roamDistanceMeters lib source target q.meters with
          | none =>
            have hnot : q.isNear lib source target = false := by simp [hnear, hdistance]
            simp only [bind, Except.bind, findSome?, hdistance, Option.map_none, ite_self]
            exact hfar hnot
          | some distance =>
            have hyes : q.isNear lib source target = true := by
              simp [hnear, hdistance, hglob, hsame]
            have hany : (some target).any (q.isNear lib source) = true := hyes
            have hnoted := pairs_notePair state (source.id, targetId) q.nodwell
            have hreport : (notePair state (source.id, targetId) q.nodwell).2 =
                !(state.pairs[(source.id, targetId)]?.getD false && q.nodwell) := rfl
            have hid : ¬ (target.id == source.id) = true := by simpa using hsame
            simp only [PairReconciled, bind, Except.bind, findSome?, hdistance, Option.map_some,
              if_neg hid, if_true, hreport, hany, Bool.true_and]
            split
            · refine ⟨_, _, rfl, hnoted, ?_⟩
              rw [map_cons, map_nil, ← htarget]
              rfl
            · exact ⟨_, _, rfl, hnoted, rfl⟩

variable (event sourceCollection group hook emit) in
theorem reconcileTargetPairs_spec {sources : List Object} (hids : (sources.map Object.id).Nodup)
    (hallowed : ∀ source ∈ sources, ∃ b, lib.matchesCandidate source q.options = .ok b)
    (hid : ∀ target, after = some target → target.id = targetId) (state : StoredState)
    (events : List GeofenceEvent) :
    ∃ next more, reconcileTargetPairs lib
        (after.toList.filter fun target => lib.globMatch q.targetPattern target.id) (some targetId) q
        event sourceCollection group hook emit sources (state, events) =
          .ok (next, events ++ more) ∧
      (∀ s t, next.pairs[(s, t)]? =
        if t = targetId ∧ s ∈ sources.map Object.id then
          if sources.any fun source => source.id == s && after.any (q.isNear lib source) then
            some true else none
        else state.pairs[(s, t)]?) ∧
      more.map GeofenceEvent.pair? = (sources.filter fun source =>
        after.any (q.isNear lib source) && (emit &&
          !(state.pairs[(source.id, targetId)]?.getD false && q.nodwell))).map
        fun source => some (source.id, targetId) := by
  induction sources generalizing state events with
  | nil => exact ⟨state, [], by rw [append_nil]; rfl, by simp, rfl⟩
  | cons source sources ih =>
    obtain ⟨hfresh, hrest⟩ := nodup_cons.1 hids
    obtain ⟨⟨allowed, hsource⟩, hsources⟩ := forall_mem_cons.1 hallowed
    obtain ⟨mid, first, hfirst, hmid, hpair⟩ := reconcileTargetPair_spec event
      sourceCollection group hook emit state hsource hid
    obtain ⟨next, more, hmore, hnext, hpairs⟩ := ih hrest hsources mid (events ++ first)
    refine ⟨next, first ++ more, ?_, ?_, ?_⟩
    · rw [reconcileTargetPairs, hfirst, ← append_assoc]
      exact hmore
    · intro s t
      rw [hnext, hmid]
      by_cases ht : t = targetId
      · subst ht
        by_cases hs : s = source.id
        · subst hs
          have hnone : (sources.any fun other =>
              other.id == source.id && after.any (q.isNear lib other)) = false := by
            rw [any_eq_false]
            intro other hother
            have hne : other.id ≠ source.id := fun heq => hfresh (heq ▸ mem_map_of_mem hother)
            simp [hne]
          have hlater : ¬ (t = t ∧ source.id ∈ sources.map Object.id) := fun h => hfresh h.2
          rw [if_neg hlater]
          simp [hnone]
        · have hpair : ¬ (source.id, t) = (s, t) := by simp [Ne.symm hs]
          rw [if_neg hpair]
          simp [hs, Ne.symm hs]
      · have hpair : ¬ (source.id, targetId) = (s, t) := by simp [Ne.symm ht]
        rw [if_neg hpair]
        simp [ht]
    · have hkeep : (sources.filter fun other => after.any (q.isNear lib other) && (emit &&
          !(mid.pairs[(other.id, targetId)]?.getD false && q.nodwell))) =
          sources.filter fun other => after.any (q.isNear lib other) && (emit &&
            !(state.pairs[(other.id, targetId)]?.getD false && q.nodwell)) := by
        refine filter_congr fun other hother => ?_
        have hne : ¬ (source.id, targetId) = (other.id, targetId) := by
          intro heq
          exact hfresh ((Prod.mk.inj heq).1 ▸ mem_map_of_mem hother)
        rw [hmid, if_neg hne]
      rw [map_append, hpair, hpairs, hkeep, filter_cons]
      split <;> rfl

end Target

/-! ### Evaluation -/

def GeofenceDef.roam? (d : GeofenceDef) : Option RoamQuery :=
  match d.query with
  | .roam targetCollection targetPattern meters options nodwell =>
    some { targetCollection, targetPattern, meters, options, nodwell }
  | _ => none

structure MutationEvent.Fits (event : MutationEvent) : Prop where
  before : ∀ object, event.before = some object → object.id = event.id
  after : ∀ object, event.after = some object → object.id = event.id
  some : event.before ≠ none ∨ event.after ≠ none

theorem MutationEvent.Fits.targetId {event : MutationEvent} (h : event.Fits) :
    (event.before <|> event.after).map Object.id = Option.some event.id := by
  cases hbefore : event.before with
  | some object => simp [h.before object hbefore]
  | none =>
    cases hafter : event.after with
    | some object => simp [h.after object hafter]
    | none => exact absurd hafter (h.some.resolve_left (not_not.2 hbefore))

theorem GeofenceDef.target?_of_roam {d : GeofenceDef} (h : d.roam? = some q) :
    d.target? = some q.targetCollection := by
  unfold roam? at h
  unfold target?
  cases hquery : d.query with
  | roam target =>
    rw [hquery] at h
    cases h
    rfl
  | _ =>
    rw [hquery] at h
    cases h

theorem Mutation.evaluate_roam {m : Mutation} {name : String} {hook : Option String}
    {d : GeofenceDef} {state : StoredState} (hroam : d.roam? = some q) :
    m.evaluate lib name hook d state =
      (evaluateRoamingFence lib m.order d state m.event (some name) hook q m.lookup).map
        fun result => (.replace result.1, result.2) := by
  unfold GeofenceDef.roam? at hroam
  unfold evaluate evaluateStoredFence
  cases hquery : d.query with
  | roam target =>
    rw [hquery] at hroam
    cases hroam
    dsimp only
    cases evaluateRoamingFence lib m.order d state m.event (some name) hook _ m.lookup <;> rfl
  | _ =>
    rw [hquery] at hroam
    cases hroam

/-- The pairs of a fence after a mutation: those of the written id are found anew, the others
stay. -/
structure RoamStep (lib : FenceLib) (m : Mutation) (d : GeofenceDef) (q : RoamQuery)
    (before after : StoredState) (events : List GeofenceEvent) : Prop where
  sound : after.Sound
  source : m.event.collection = d.collection → ∀ s t, (s, t) ∈ after.pairs ↔
    if s = m.event.id then ∃ source, m.event.after = some source ∧
      ∃ target ∈ m.lookup q.targetCollection, target.id = t ∧ q.Near lib source target
    else (s, t) ∈ before.pairs
  target : m.event.collection = q.targetCollection → ∀ s t, (s, t) ∈ after.pairs ↔
    if t = m.event.id ∧ s ∈ (m.lookup d.collection).map Object.id then
      ∃ target, m.event.after = some target ∧
        ∃ source ∈ m.lookup d.collection, source.id = s ∧ q.Near lib source target
    else (s, t) ∈ before.pairs
  elsewhere : m.event.collection ≠ d.collection → m.event.collection ≠ q.targetCollection →
    after = before
  reported : q.nodwell = true → ∀ s t, (events.map GeofenceEvent.pair?).count (some (s, t)) =
    if d.Selects m.event.command .roam ∧ (s, t) ∉ before.pairs ∧ (s, t) ∈ after.pairs then 1 else 0

section Step

variable {m : Mutation} {name : String} {hook : Option String} {d : GeofenceDef} {q : RoamQuery}
  {before : StoredState}

def GeofenceDef.emits (d : GeofenceDef) (event : MutationEvent) : Bool :=
  decide ((d.commands = [] ∨ event.command ∈ d.commands) ∧ (d.detect = [] ∨ .roam ∈ d.detect))

theorem GeofenceDef.emits_iff {event : MutationEvent} :
    d.emits event = true ↔ d.Selects event.command .roam := by
  rw [emits, decide_eq_true_iff, GeofenceDef.Selects, and_comm]

theorem Mutation.next_of_roam (hroam : d.roam? = some q) {next : StoredState}
    {events : List GeofenceEvent} (h : evaluateRoamingFence lib m.order d before m.event (some name)
      hook q m.lookup = .ok (next, events)) :
    m.next lib name hook d before = next ∧ m.produced lib name hook d before = events := by
  rw [Mutation.next, Mutation.produced, m.evaluate_roam hroam, h]
  exact ⟨rfl, rfl⟩

structure SourceStep (lib : FenceLib) (m : Mutation) (d : GeofenceDef) (q : RoamQuery)
    (before after : StoredState) (events : List GeofenceEvent) : Prop where
  sound : after.Sound
  pairs : ∀ s t, (s, t) ∈ after.pairs ↔
    if s = m.event.id then ∃ source, m.event.after = some source ∧
      ∃ target ∈ m.lookup q.targetCollection, target.id = t ∧ q.Near lib source target
    else (s, t) ∈ before.pairs
  reported : q.nodwell = true → ∀ s t, (events.map GeofenceEvent.pair?).count (some (s, t)) =
    if d.Selects m.event.command .roam ∧ (s, t) ∉ before.pairs ∧ (s, t) ∈ after.pairs then 1 else 0

theorem Mutation.sourceStep_gone (hroam : d.roam? = some q)
    (hown : m.event.collection = d.collection) (hafter : m.event.after = none)
    (hsound : before.Sound) :
    SourceStep lib m d q before (m.next lib name hook d before)
      (m.produced lib name hook d before) := by
  have heval : evaluateRoamingFence lib m.order d before m.event (some name) hook q m.lookup =
      .ok (clearSourcePairs before m.event.id, []) := by
    rw [evaluateRoamingFence, if_neg (fun h => h.1 hown), if_pos hown, hafter]
  obtain ⟨hnext, hevents⟩ := next_of_roam hroam heval
  have hget : ∀ key : String × String, (clearSourcePairs before m.event.id).pairs[key]? =
      if key.1 ≠ m.event.id then before.pairs[key]? else none := by
    intro key
    rw [clearSourcePairs, Lib.getElem?_filter_keys]
    simp
  have hmem : ∀ s t, (s, t) ∈ (clearSourcePairs before m.event.id).pairs ↔
      if s = m.event.id then False else (s, t) ∈ before.pairs := by
    intro s t
    rw [mem_iff_isSome_getElem?, hget]
    by_cases hs : s = m.event.id
    · simp [hs]
    · rw [if_pos hs, if_neg hs, ← mem_iff_isSome_getElem?]
  rw [hnext, hevents]
  refine ⟨?_, ?_, ?_⟩
  · intro key
    rw [hget]
    split
    · exact hsound key
    · simp
  · intro s t
    rw [hmem, hafter]
    simp
  · intro _ s t
    have hnot : ¬ (d.Selects m.event.command .roam ∧ (s, t) ∉ before.pairs ∧
        (s, t) ∈ (clearSourcePairs before m.event.id).pairs) := by
      rintro ⟨-, hout, hin⟩
      rw [hmem] at hin
      split at hin
      · exact hin
      · exact hout hin
    rw [if_neg hnot]
    rfl

theorem Mutation.sourceStep (name : String) (hook : Option String) (hroam : d.roam? = some q)
    (hown : m.event.collection = d.collection) (hfits : m.event.Fits)
    (horder : ∀ names, (m.order names).Perm names)
    (htargets : ((m.lookup q.targetCollection).map Object.id).Nodup)
    (hallowed : ∀ object, ∃ b, lib.matchesCandidate object q.options = .ok b)
    (hsound : before.Sound) :
    SourceStep lib m d q before (m.next lib name hook d before)
      (m.produced lib name hook d before) := by
  cases hafter : m.event.after with
  | none => exact sourceStep_gone hroam hown hafter hsound
  | some source =>
    have heval : evaluateRoamingFence lib m.order d before m.event (some name) hook q m.lookup =
        reconcileSourcePairs lib m.order before source (m.lookup q.targetCollection) q m.event
          d.collection (some name) hook (d.emits m.event) := by
      rw [evaluateRoamingFence, if_neg (fun h => h.1 hown), if_pos hown, hafter]
      rfl
    obtain ⟨allowed, hsource⟩ := hallowed source
    obtain ⟨next, events, hspec, hsound', hpairs, hcount⟩ :=
      reconcileSourcePairs_spec m.event d.collection (some name) hook (d.emits m.event) horder
        htargets hsound hsource
    obtain ⟨hnext, hevents⟩ := next_of_roam hroam (heval.trans hspec)
    rw [hnext, hevents]
    refine ⟨hsound', ?_, ?_⟩
    · intro s t
      rw [hpairs, hfits.after source hafter, hafter]
      simp
    · intro hdwell s t
      rw [hcount hdwell]
      exact if_congr (and_congr_left' GeofenceDef.emits_iff) rfl rfl

theorem Mutation.roamStep_target (hroam : d.roam? = some q)
    (hown : m.event.collection ≠ d.collection) (htarget : m.event.collection = q.targetCollection)
    (hfits : m.event.Fits) (hsources : ((m.lookup d.collection).map Object.id).Nodup)
    (hallowed : ∀ source ∈ m.lookup d.collection, ∃ b, lib.matchesCandidate source q.options = .ok b)
    (hsound : before.Sound) :
    RoamStep lib m d q before (m.next lib name hook d before)
      (m.produced lib name hook d before) := by
  have heval : evaluateRoamingFence lib m.order d before m.event (some name) hook q m.lookup =
      reconcileTargetPairs lib (m.event.after.toList.filter fun object =>
        lib.globMatch q.targetPattern object.id) (some m.event.id) q m.event d.collection
        (some name) hook (d.emits m.event) (m.lookup d.collection) (before, []) := by
    rw [evaluateRoamingFence, if_neg (fun h => h.2 htarget), if_neg hown, ← hfits.targetId]
    rfl
  obtain ⟨next, events, hspec, hpairs, hreports⟩ := reconcileTargetPairs_spec m.event d.collection
    (some name) hook (d.emits m.event) hsources hallowed hfits.after before []
  obtain ⟨hnext, hevents⟩ := next_of_roam hroam (heval.trans hspec)
  rw [hnext, hevents, nil_append]
  have hany : ∀ s, ((m.lookup d.collection).any fun source =>
      source.id == s && m.event.after.any (q.isNear lib source)) = true ↔
      ∃ target, m.event.after = some target ∧
        ∃ source ∈ m.lookup d.collection, source.id = s ∧ q.Near lib source target := by
    intro s
    cases m.event.after with
    | none => simp
    | some target =>
      simp only [Option.any_some, any_eq_true, Bool.and_eq_true, beq_iff_eq,
        RoamQuery.isNear_iff, Option.some.injEq, exists_eq_left']
  have hmem : ∀ s t, (s, t) ∈ next.pairs ↔
      if t = m.event.id ∧ s ∈ (m.lookup d.collection).map Object.id then
        ∃ target, m.event.after = some target ∧
          ∃ source ∈ m.lookup d.collection, source.id = s ∧ q.Near lib source target
      else (s, t) ∈ before.pairs := by
    intro s t
    rw [mem_iff_isSome_getElem?, hpairs]
    by_cases hpair : t = m.event.id ∧ s ∈ (m.lookup d.collection).map Object.id
    · split <;> simp_all
    · rw [if_neg hpair, if_neg hpair, ← mem_iff_isSome_getElem?]
  refine ⟨?_, fun hown' => absurd hown' hown, fun _ => hmem,
    fun _ hother => absurd htarget hother, ?_⟩
  · rintro ⟨s, t⟩
    rw [hpairs]
    split
    · split <;> simp
    · exact hsound (s, t)
  · intro hdwell s t
    have hnodup : ∀ p : Object → Bool, (((m.lookup d.collection).filter p).map
        fun source => (source.id, m.event.id)).Nodup := by
      intro p
      have hids := hsources.sublist ((@filter_sublist _ p (m.lookup d.collection)).map Object.id)
      have hmap := hids.map (Prod.mk_left_injective m.event.id)
      rwa [map_map] at hmap
    rw [hreports, count_map_some (hnodup _)]
    refine if_congr ?_ rfl rfl
    rw [hmem, ← hany s, ← GeofenceDef.emits_iff, mem_map]
    simp only [mem_filter, Bool.and_eq_true, Bool.not_eq_true', hdwell, Bool.and_true,
      ← Bool.not_eq_true, hsound.getD_eq, Prod.mk.injEq]
    constructor
    · rintro ⟨source, ⟨hsource, hnear, hsel, hout⟩, rfl, rfl⟩
      refine ⟨hsel, hout, ?_⟩
      rw [if_pos ⟨rfl, mem_map_of_mem hsource⟩, any_eq_true]
      exact ⟨source, hsource, by simp [hnear]⟩
    · rintro ⟨hsel, hout, hin⟩
      split at hin
      next hpair =>
        obtain ⟨rfl, -⟩ := hpair
        obtain ⟨source, hsource, hboth⟩ := any_eq_true.1 hin
        simp only [Bool.and_eq_true, beq_iff_eq] at hboth
        obtain ⟨rfl, hnear⟩ := hboth
        exact ⟨source, ⟨hsource, hnear, hsel, hout⟩, rfl, rfl⟩
      · exact absurd hin hout

theorem Mutation.roamStep (name : String) (hook : Option String) (hroam : d.roam? = some q)
    (hne : d.collection ≠ q.targetCollection) (hfits : m.event.Fits)
    (horder : ∀ names, (m.order names).Perm names)
    (hids : ∀ collection, ((m.lookup collection).map Object.id).Nodup)
    (hallowed : ∀ object, ∃ b, lib.matchesCandidate object q.options = .ok b)
    (hsound : before.Sound) :
    RoamStep lib m d q before (m.next lib name hook d before)
      (m.produced lib name hook d before) := by
  by_cases hown : m.event.collection = d.collection
  · have h := sourceStep name hook hroam hown hfits horder (hids _) hallowed hsound
    exact ⟨h.sound, fun _ => h.pairs, fun htarget => absurd (hown.symm.trans htarget) hne,
      fun hother => absurd hown hother, h.reported⟩
  · by_cases htarget : m.event.collection = q.targetCollection
    · exact roamStep_target hroam hown htarget hfits (hids _)
        (fun source _ => hallowed source) hsound
    · have hother : d.target? ≠ some m.event.collection := by
        rw [GeofenceDef.target?_of_roam hroam]
        exact fun heq => htarget (Option.some.inj heq).symm
      obtain ⟨hnext, hevents⟩ := @evaluate_elsewhere lib m name hook d before
        (Ne.symm hown) hother
      rw [hnext, hevents]
      refine ⟨hsound, fun hown' => absurd hown' hown, fun htarget' => absurd htarget' htarget,
        fun _ _ => rfl, ?_⟩
      intro _ s t
      rw [if_neg (fun h => h.2.1 h.2.2)]
      rfl

end Step

end LatLng.Geofence
