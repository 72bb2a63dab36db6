import LatLng.Core.Edits
import LatLng.Core.Sample
import LatLng.Geofence.Roaming
import LatLng.Index.Filters

/-! Roaming fences over a run of SET, FSET and DEL. What a fence over two collections remembers
is a function of the objects that are stored and of what was written since it was defined. -/

namespace LatLng.Core

open Geo Geofence Index Storage Std List Db

variable {lib : Lib}

/-! ### The indexes of the registry -/

theorem Registry.Indexed.applyPlanned {r : Registry} (h : r.Indexed)
    (planned : List PreparedMutation) : (planned.foldl Registry.applyPreparedMutation r).Indexed :=
  foldlRecOn planned _ h fun _ hr _ _ => ⟨hr.channels.update _, hr.hooks.update _⟩

theorem Effect.indexed {s : Store} (h : s.geofences.Indexed) (effect : Effect) :
    (effect.apply lib s).2.geofences.Indexed := by
  cases effect with
  | mutate c m =>
    rw [Effect.geofences_mutate]
    exact h
  | createCollection c => exact h
  | dropCollection c => exact h
  | rename c newName =>
    rw [Effect.apply, Store.renameCell]
    split <;> exact h
  | setChannel name d => exact h.perform lib.toFenceLib (.setChannel name d)
  | delChannel name => exact h.perform lib.toFenceLib (.delChannel name)
  | pdelChannel pattern => exact h.perform lib.toFenceLib (.pdelChannel pattern)
  | setHook name endpoint d => exact h.perform lib.toFenceLib (.setHook name endpoint d)
  | delHook name => exact h.perform lib.toFenceLib (.delHook name)
  | pdelHook pattern => exact h.perform lib.toFenceLib (.pdelHook pattern)

theorem Store.Moves.indexed {s s' : Store} (hm : s.Moves lib s') (h : s.geofences.Indexed) :
    s'.geofences.Indexed := by
  cases hm with
  | @write w aim hw =>
    rw [Write.apply]
    have heffect := @Effect.indexed lib s h w.effect
    rcases hr : w.effect.apply lib s with ⟨_ | answer, s'⟩
    · rw [hr] at heffect
      exact heffect
    · rw [hr] at heffect
      dsimp only
      split
      · exact heffect
      · exact Registry.Indexed.applyPlanned heffect w.planned
  | replay now command =>
    cases command with
    | set req | setPersisted record =>
      rw [applyPersistedCommandToState, geofences_replayUpsert]
      exact h
    | rename c newName =>
      rw [applyPersistedCommandToState, Store.renameCell]
      split <;> exact h
    | setChannel name d =>
      rw [applyPersistedCommandToState]
      split
      · exact h
      · exact h.perform lib.toFenceLib (.setChannel name d)
    | delChannel name => exact h.perform lib.toFenceLib (.delChannel name)
    | pdelChannel pattern => exact h.perform lib.toFenceLib (.pdelChannel pattern)
    | setHook name endpoint d =>
      rw [applyPersistedCommandToState]
      split
      · exact h
      · exact h.perform lib.toFenceLib (.setHook name endpoint d)
    | delHook name => exact h.perform lib.toFenceLib (.delHook name)
    | pdelHook pattern => exact h.perform lib.toFenceLib (.pdelHook pattern)
    | flushDb => exact h.perform lib.toFenceLib .clearAll
    | _ => exact h
  | gc now => exact h
  | clear => exact h.perform lib.toFenceLib .clearAll

theorem Store.Reaches.indexed {s s' : Store} (hr : s.Reaches lib s') (h : s.geofences.Indexed) :
    s'.geofences.Indexed := by
  induction hr with
  | refl => exact h
  | tail _ hm ih => exact hm.indexed ih

/-! ### The objects that a fence looks at -/

variable {db : Db} {ctx : Ctx}

theorem Db.mem_liveObjects {collection : String} {object : Object} :
    object ∈ db.liveObjects ctx collection ↔
      (∃ id, db.getObject collection id = some object) ∧
        isExpired ctx.nowMs object = false := by
  rw [liveObjects]
  cases hcell : db.collections[collection]? with
  | none => simp [getObject, hcell]
  | some cell =>
    have hget : ∀ id, db.getObject collection id = cell.objects[id]? := by
      intro id
      rw [getObject, hcell, Option.bind_some]
    simp only [mem_filter, mem_filterMap, (ctx.order_perm _).mem_iff,
      ExtTreeMap.mem_keys, Bool.not_eq_true', hget]
    refine and_congr_left' (exists_congr fun id => and_iff_right_of_imp fun hid => ?_)
    rw [ExtTreeMap.mem_iff_isSome_getElem?, hid]
    rfl

theorem Db.id_of_getObject (h : db.Keyed) {collection id : String} {object : Object}
    (hget : db.getObject collection id = some object) : object.id = id := by
  obtain ⟨cell, hcell, hobject⟩ := Option.bind_eq_some_iff.1 hget
  exact (h collection cell hcell).ids id object hobject

theorem Db.nodup_liveObjects (h : db.Keyed) (ctx : Ctx) (collection : String) :
    ((db.liveObjects ctx collection).map Object.id).Nodup := by
  rw [liveObjects]
  cases hcell : db.collections[collection]? with
  | none => exact nodup_nil
  | some cell =>
    have hids := (h collection cell hcell).ids_sublist (ctx.order cell.objects.keys)
    have hkeys : (ctx.order cell.objects.keys).Nodup :=
      (ctx.order_perm _).nodup_iff.2 ExtTreeMap.nodup_keys
    exact (hkeys.sublist hids).sublist (filter_sublist.map Object.id)

theorem Request.event?_fits (h : db.Keyed) {request : Request}
    {event : MutationEvent} (hevent : request.event? db ctx = some event) : event.Fits := by
  have hstored : ∀ {collection id : String} {f : Object → MutationEvent},
      (db.getObject collection id).map f = some event →
      (∀ object, (f object).id = id ∧ (f object).before = some object ∧
        ∀ after, (f object).after = some after → after.id = object.id) → event.Fits := by
    intro collection id f hmap hf
    obtain ⟨object, hget, rfl⟩ := Option.map_eq_some_iff.1 hmap
    obtain ⟨hid, hbefore, hafter⟩ := hf object
    have hobject : object.id = (f object).id := (id_of_getObject h hget).trans hid.symm
    refine ⟨?_, fun after ha => (hafter after ha).trans hobject, .inl (by simp [hbefore])⟩
    intro before hb
    rw [hbefore] at hb
    cases hb
    exact hobject
  cases request with
  | set req =>
    cases hevent
    refine ⟨fun before hb => id_of_getObject h hb, ?_, .inr (by simp [setEvent])⟩
    intro after ha
    cases ha
    rfl
  | del collection id => exact hstored hevent fun object => ⟨rfl, rfl, nofun⟩
  | fset collection id fields xx =>
    refine hstored hevent fun object => ⟨rfl, rfl, fun after ha => ?_⟩
    cases ha
    rfl
  | _ => cases hevent

/-! ### Runs -/

def Request.untimed : Request → Bool
  | .set req => req.expireSeconds.isNone
  | request => request.edits

def Request.written? : Request → Option (String × String)
  | .set req => some (req.collection, req.id)
  | .fset collection id _ _ => some (collection, id)
  | _ => none

def Request.command? : Request → Option MutationCommand
  | .set _ => some .set
  | .del _ _ => some .del
  | .fset _ _ _ _ => some .fset
  | _ => none

section Runs

variable (lib : Lib) (db : Db)

def Db.edited (calls : List (Ctx × Request)) : Db :=
  calls.foldl (fun db call => (db.perform lib call.1 call.2).2) db

def Db.writes (ctx : Ctx) (request : Request) : List (String × String) :=
  match (db.perform lib ctx request).1 with
  | .ok (.bool true) => request.written?.toList
  | _ => []

def Db.written (db : Db) : List (Ctx × Request) → List (String × String)
  | [] => []
  | (ctx, request) :: calls =>
    db.writes lib ctx request ++ (db.perform lib ctx request).2.written calls

def Db.reports (fence : Fence) (ctx : Ctx) (request : Request) : List (Option (String × String)) :=
  ((db.published lib ctx request).filter fun event => decide (fence.Owns event)).map
    GeofenceEvent.pair?

def Db.reported (db : Db) (fence : Fence) : List (Ctx × Request) → List (Option (String × String))
  | [] => []
  | (ctx, request) :: calls =>
    db.reports lib fence ctx request ++ (db.perform lib ctx request).2.reported fence calls

/-- A stored source and a stored target that are near, one of them written in the meantime. -/
def Db.Paired (d : GeofenceDef) (q : RoamQuery) (since : List (String × String)) (s t : String) :
    Prop :=
  ∃ source target, db.getObject d.collection s = some source ∧
    db.getObject q.targetCollection t = some target ∧ q.Near lib.toFenceLib source target ∧
    ((d.collection, s) ∈ since ∨ (q.targetCollection, t) ∈ since)

structure Db.Tracks (fence : Fence) (d : GeofenceDef) (q : RoamQuery)
    (since : List (String × String)) : Prop where
  wellformed : db.Wellformed
  indexed : db.geofences.Indexed
  timeless : ∀ c, c = d.collection ∨ c = q.targetCollection → ∀ id object,
    db.getObject c id = some object → object.expiresAt = none
  remembered : ∃ state, db.geofences.fence? fence = some (d, state) ∧ state.Sound ∧
    ∀ s t, (s, t) ∈ state.pairs ↔ db.Paired lib d q since s t

end Runs

theorem Db.written_append (db : Db) (calls later : List (Ctx × Request)) :
    db.written lib (calls ++ later) =
      db.written lib calls ++ (db.edited lib calls).written lib later := by
  induction calls generalizing db with
  | nil => rfl
  | cons call calls ih =>
    rw [cons_append, written, ih, written, append_assoc]
    rfl

section Step

variable {db : Db} {fence : Fence} {d : GeofenceDef} {q : RoamQuery}
  {since : List (String × String)}

theorem Db.Tracks.exists_liveObjects (h : db.Tracks lib fence d q since) {c : String}
    (hc : c = d.collection ∨ c = q.targetCollection) (ctx : Ctx) (id : String) (P : Object → Prop) :
    (∃ object ∈ db.liveObjects ctx c, object.id = id ∧ P object) ↔
      ∃ object, db.getObject c id = some object ∧ P object := by
  simp only [mem_liveObjects]
  constructor
  · rintro ⟨object, ⟨⟨id', hget⟩, -⟩, rfl, hP⟩
    rw [← id_of_getObject h.wellformed.keyed hget] at hget
    exact ⟨object, hget, hP⟩
  · rintro ⟨object, hget, hP⟩
    refine ⟨object, ⟨⟨id, hget⟩, ?_⟩, id_of_getObject h.wellformed.keyed hget, hP⟩
    rw [isExpired, h.timeless c hc _ _ hget]

variable {request : Request} {event : MutationEvent}

theorem Request.event?_written (hevent : request.event? db ctx = some event) :
    request.written? = event.after.map (fun _ => (event.collection, event.id)) ∧
      request.command? = some event.command := by
  cases request with
  | set req =>
    cases hevent
    exact ⟨rfl, rfl⟩
  | del collection id | fset collection id fields xx =>
    obtain ⟨object, -, rfl⟩ := Option.map_eq_some_iff.1 hevent
    exact ⟨rfl, rfl⟩
  | _ => cases hevent

theorem Request.event?_timeless (hevent : request.event? db ctx = some event)
    (hreq : request.untimed)
    (hstored : ∀ object, event.before = some object → object.expiresAt = none) :
    ∀ object, event.after = some object → object.expiresAt = none := by
  intro after hafter
  cases request with
  | set req =>
    cases hevent
    cases hafter
    have hnone : req.expireSeconds = none := Option.isNone_iff_eq_none.1 hreq
    show req.expireSeconds.map _ = none
    rw [hnone, Option.map_none]
  | del collection id =>
    obtain ⟨object, -, rfl⟩ := Option.map_eq_some_iff.1 hevent
    cases hafter
  | fset collection id fields xx =>
    obtain ⟨object, -, rfl⟩ := Option.map_eq_some_iff.1 hevent
    cases hafter
    exact hstored object rfl
  | _ => cases hevent

theorem Request.event?_before (hevent : request.event? db ctx = some event) :
    event.before = db.getObject event.collection event.id := by
  cases request with
  | set req =>
    cases hevent
    rfl
  | del collection id | fset collection id fields xx =>
    obtain ⟨object, hget, rfl⟩ := Option.map_eq_some_iff.1 hevent
    exact hget.symm
  | _ => cases hevent

theorem Request.edits_of_untimed (h : request.untimed) : request.edits = true := by
  cases request with
  | set req => rfl
  | _ => exact h

theorem Db.paired_congr {db' : Db} {since' : List (String × String)} {s t : String}
    (hs : db'.getObject d.collection s = db.getObject d.collection s)
    (ht : db'.getObject q.targetCollection t = db.getObject q.targetCollection t)
    (hsource : (d.collection, s) ∈ since' ↔ (d.collection, s) ∈ since)
    (htarget : (q.targetCollection, t) ∈ since' ↔ (q.targetCollection, t) ∈ since) :
    db'.Paired lib d q since' s t ↔ db.Paired lib d q since s t := by
  simp only [Db.Paired, hs, ht, hsource, htarget]

theorem Db.Tracks.paired_iff {db' : Db} (h : db.Tracks lib fence d q since)
    (hne : d.collection ≠ q.targetCollection)
    {before after : StoredState} {events : List GeofenceEvent}
    (hbefore : ∀ s t, (s, t) ∈ before.pairs ↔ db.Paired lib d q since s t)
    (hget : ∀ c id, db'.getObject c id =
      if event.collection = c ∧ event.id = id then event.after else db.getObject c id)
    (hstep : RoamStep lib.toFenceLib (db.seen ctx event) d q before after events) (s t : String) :
    (s, t) ∈ after.pairs ↔ db'.Paired lib d q
      (since ++ (event.after.map fun _ => (event.collection, event.id)).toList) s t := by
  have hother : ∀ c id, ¬ (event.collection = c ∧ event.id = id) →
      db'.getObject c id = db.getObject c id := by
    intro c id hkey
    rw [hget, if_neg hkey]
  have hsince : ∀ c id, ¬ (event.collection = c ∧ event.id = id) →
      ((c, id) ∈ since ++ (event.after.map fun _ => (event.collection, event.id)).toList ↔
        (c, id) ∈ since) := by
    intro c id hkey
    cases event.after with
    | none => simp
    | some after =>
      have hnot : (c, id) ≠ (event.collection, event.id) := by
        rintro ⟨⟩
        exact hkey ⟨rfl, rfl⟩
      simp [hnot]
  have hstays : ¬ (event.collection = d.collection ∧ event.id = s) →
      ¬ (event.collection = q.targetCollection ∧ event.id = t) →
      ((s, t) ∈ before.pairs ↔ db'.Paired lib d q
        (since ++ (event.after.map fun _ => (event.collection, event.id)).toList) s t) := by
    intro hs ht
    exact (hbefore s t).trans (paired_congr (hother _ _ hs) (hother _ _ ht) (hsince _ _ hs)
      (hsince _ _ ht)).symm
  by_cases hown : event.collection = d.collection
  · have hapart : ¬ (event.collection = q.targetCollection ∧ event.id = t) :=
      fun hkey => hne (hown.symm.trans hkey.1)
    have hsource : (s, t) ∈ after.pairs ↔ if s = event.id then ∃ source,
        event.after = some source ∧ ∃ target ∈ db.liveObjects ctx q.targetCollection,
          target.id = t ∧ q.Near lib.toFenceLib source target
        else (s, t) ∈ before.pairs := hstep.source hown s t
    rw [hsource]
    by_cases hs : s = event.id
    · subst hs
      rw [if_pos rfl, Db.Paired, hget, if_pos ⟨hown, rfl⟩, hother _ _ hapart]
      simp only [h.exists_liveObjects (.inr rfl)]
      constructor
      · rintro ⟨source, hafter, target, htarget, hnear⟩
        exact ⟨source, target, hafter, htarget, hnear, .inl (by simp [hafter, hown])⟩
      · rintro ⟨source, target, hafter, htarget, hnear, -⟩
        exact ⟨source, hafter, target, htarget, hnear⟩
    · rw [if_neg hs]
      exact hstays (fun hkey => hs hkey.2.symm) hapart
  · have hapart : ¬ (event.collection = d.collection ∧ event.id = s) := fun hkey => hown hkey.1
    by_cases htarget : event.collection = q.targetCollection
    · have hpairs : (s, t) ∈ after.pairs ↔
          if t = event.id ∧ s ∈ (db.liveObjects ctx d.collection).map Object.id then ∃ target,
            event.after = some target ∧ ∃ source ∈ db.liveObjects ctx d.collection,
              source.id = s ∧ q.Near lib.toFenceLib source target
          else (s, t) ∈ before.pairs := hstep.target htarget s t
      have hlisted : s ∈ (db.liveObjects ctx d.collection).map Object.id ↔
          ∃ source, db.getObject d.collection s = some source := by
        simpa using h.exists_liveObjects (.inl rfl) ctx s fun _ => True
      rw [hpairs]
      by_cases ht : t = event.id
      · subst ht
        have hnew : db'.getObject q.targetCollection event.id = event.after := by
          rw [hget, if_pos ⟨htarget, rfl⟩]
        rw [Db.Paired, hother _ _ hapart, hnew]
        simp only [h.exists_liveObjects (.inl rfl)]
        split
        · constructor
          · rintro ⟨target, hafter, source, hsource, hnear⟩
            exact ⟨source, target, hsource, hafter, hnear, .inr (by simp [hafter, htarget])⟩
          · rintro ⟨source, target, hsource, hafter, hnear, -⟩
            exact ⟨target, hafter, source, hsource, hnear⟩
        next hnone =>
          -- a source that is not stored is in no pair, before and after
          rw [hbefore]
          exact iff_of_false (fun ⟨source, _, hsource, _⟩ => hnone ⟨trivial, hlisted.2 ⟨_, hsource⟩⟩)
            fun ⟨source, _, hsource, _⟩ => hnone ⟨trivial, hlisted.2 ⟨_, hsource⟩⟩
      · rw [if_neg (fun hkey => ht hkey.1)]
        exact hstays hapart fun hkey => ht hkey.2.symm
    · rw [hstep.elsewhere hown htarget]
      exact hstays hapart fun hkey => htarget hkey.1

variable (lib) in
theorem Db.Tracks.perform (h : db.Tracks lib fence d q since) (hroam : d.roam? = some q)
    (hne : d.collection ≠ q.targetCollection)
    (hallowed : ∀ object, ∃ b, lib.matchesCandidate object q.options = .ok b)
    (ctx : Ctx) {request : Request} (hreq : request.untimed) :
    (db.perform lib ctx request).2.Tracks lib fence d q (since ++ db.writes lib ctx request) ∧
    (q.nodwell → ∀ s t, (db.reports lib fence ctx request).count (some (s, t)) ≤ 1 ∧
      (some (s, t) ∈ db.reports lib fence ctx request ↔
        (∃ command, request.command? = some command ∧ d.Selects command .roam) ∧
        ¬ db.Paired lib d q since s t ∧
        (db.perform lib ctx request).2.Paired lib d q (since ++ db.writes lib ctx request) s t)) := by
  have hreach : db.Reaches lib (db.perform lib ctx request).2 :=
    Db.Reaches.of_call lib db ctx (.request request)
  have hwellformed := hreach.wellformed h.wellformed
  have hindexed := Store.Reaches.indexed hreach h.indexed
  obtain ⟨state, hfence, hsound, hpairs⟩ := h.remembered
  rcases db.perform_edit lib ctx (Request.edits_of_untimed hreq) with
    ⟨hget, hfences, hpublished, hanswer⟩ | ⟨event, hevent, hanswer, hget, hfences⟩
  · -- nothing happened
    have hwrites : db.writes lib ctx request = [] := by
      rw [writes]
      split
      next hok => exact absurd hok hanswer
      · rfl
    have hsame : ∀ s t, (db.perform lib ctx request).2.Paired lib d q since s t ↔
        db.Paired lib d q since s t := by
      intro s t
      simp only [Db.Paired, hget]
    rw [hwrites, append_nil]
    refine ⟨⟨hwellformed, hindexed, fun c hc id object ho => h.timeless c hc id object
      ((hget c id).symm.trans ho), state, ?_, hsound, fun s t => (hpairs s t).trans
        (hsame s t).symm⟩, fun _ s t => ?_⟩
    · rw [hfences]
      exact hfence
    · rw [reports, hpublished, hsame]
      simp
  · have hfits := Request.event?_fits h.wellformed.keyed hevent
    obtain ⟨hwritten, hcommand⟩ := Request.event?_written hevent
    have hwrites : db.writes lib ctx request =
        (event.after.map fun _ => (event.collection, event.id)).toList := by
      rw [writes, hanswer, hwritten]
    obtain ⟨hgeofences, hpublished⟩ := Prod.ext_iff.1 hfences
    dsimp only at hgeofences hpublished
    have hstep := @Mutation.roamStep lib.toFenceLib (db.seen ctx event) d q state fence.name
      fence.hook? hroam hne hfits ctx.order_perm
      (fun c => nodup_liveObjects h.wellformed.keyed ctx c) hallowed hsound
    have hpaired := h.paired_iff hne hpairs hget hstep
    rw [hwrites]
    refine ⟨⟨hwellformed, hindexed, ?_, _, ?_, hstep.sound, hpaired⟩, ?_⟩
    · intro c hc id object ho
      rw [hget] at ho
      split at ho
      next hkey =>
        refine Request.event?_timeless hevent hreq (fun before hb => ?_) object ho
        rw [Request.event?_before hevent, hkey.1, hkey.2] at hb
        exact h.timeless c hc id before hb
      · exact h.timeless c hc id object ho
    · rw [hgeofences, h.indexed.fence?_evaluateMutation, hfence]
      rfl
    · intro hdwell s t
      have hreports : db.reports lib fence ctx request =
          ((db.seen ctx event).produced lib.toFenceLib fence.name fence.hook? d state).map
            GeofenceEvent.pair? := by
        rw [reports, hpublished, h.indexed.filter_events lib.toFenceLib _ hfence]
      have hcount := hstep.reported hdwell s t
      rw [hreports, ← count_pos_iff, hcount, ← hpaired, ← hpairs, hcommand]
      simp only [Option.some.injEq, exists_eq_left']
      split
      next hyes => exact ⟨Nat.le_refl 1, iff_of_true Nat.one_pos hyes⟩
      next hno => exact ⟨Nat.zero_le 1, iff_of_false (Nat.lt_irrefl 0) hno⟩

end Step

section Run

variable {db : Db} {fence : Fence} {d : GeofenceDef} {q : RoamQuery}
  {since : List (String × String)} {calls : List (Ctx × Request)}

theorem Db.Tracks.edited (h : db.Tracks lib fence d q since) (hroam : d.roam? = some q)
    (hne : d.collection ≠ q.targetCollection)
    (hallowed : ∀ object, ∃ b, lib.matchesCandidate object q.options = .ok b)
    (hcalls : ∀ call ∈ calls, call.2.untimed = true) :
    (db.edited lib calls).Tracks lib fence d q (since ++ db.written lib calls) := by
  induction calls generalizing db since with
  | nil =>
    rw [written, append_nil]
    exact h
  | cons call calls ih =>
    have hfirst := (h.perform lib hroam hne hallowed call.1 (hcalls call mem_cons_self)).1
    rw [written, ← append_assoc]
    exact ih hfirst fun later hlater => hcalls later (mem_cons_of_mem _ hlater)

theorem Db.Tracks.stay (h : db.Tracks lib fence d q since) (hroam : d.roam? = some q)
    (hne : d.collection ≠ q.targetCollection)
    (hallowed : ∀ object, ∃ b, lib.matchesCandidate object q.options = .ok b) (hdwell : q.nodwell)
    (hcalls : ∀ call ∈ calls, call.2.untimed = true) {s t : String}
    (hstay : ∀ earlier, earlier ≠ [] → earlier <+: calls →
      (db.edited lib earlier).Paired lib d q (since ++ db.written lib earlier) s t) :
    (db.reported lib fence calls).count (some (s, t)) ≤ 1 ∧
      (db.Paired lib d q since s t → (db.reported lib fence calls).count (some (s, t)) = 0) := by
  induction calls generalizing db since with
  | nil => exact ⟨Nat.zero_le 1, fun _ => rfl⟩
  | cons call calls ih =>
    obtain ⟨hnext, hreports⟩ :=
      h.perform lib hroam hne hallowed call.1 (hcalls call mem_cons_self)
    obtain ⟨hone, hmem⟩ := hreports hdwell s t
    have hnear := hstay [call] (cons_ne_nil _ _) (prefix_append [call] calls)
    rw [written, written, append_nil] at hnear
    have hlater := ih hnext (fun later hl => hcalls later (mem_cons_of_mem _ hl)) (by
      intro earlier _ hprefix
      have hwhole := hstay (call :: earlier) (cons_ne_nil _ _)
        (cons_prefix_cons.2 ⟨rfl, hprefix⟩)
      rwa [written, ← append_assoc] at hwhole)
    have hnone := hlater.2 hnear
    rw [reported, count_append, hnone, Nat.add_zero]
    refine ⟨hone, fun hbefore => ?_⟩
    rw [count_eq_zero, hmem]
    exact fun hin => hin.2.1 hbefore

end Run

/-! ### The definition -/

structure Lib.FilteredBy (lib : Lib) (f : FilterLib) : Prop where
  matches_ : lib.matchesCandidate = matchesCandidate f
  validates : lib.validateOptions = SearchOptions.validate f

theorem Lib.filteredBy_instantiate (lib : Lib) (f : FilterLib) (areas : AreaLib lib.toGeoLib)
    (md5 : List UInt8 → List UInt8) (base64 : List UInt8 → String) :
    (lib.instantiate f areas md5 base64).FilteredBy f :=
  ⟨rfl, rfl⟩

def Fence.define (endpoint : String) (d : GeofenceDef) : Fence → Request
  | .channel name => .setchan name d
  | .hook name => .sethook name endpoint d

variable {answer : Answer}

theorem Db.finish_planFence {check : Except CoreError Unit} {command : Command} {effect : Effect}
    (h : (db.finish lib ctx (db.planFence check command effect)).1 = .ok answer) :
    check = .ok () ∧ (db.finish lib ctx (db.planFence check command effect)).2.toStore =
      (effect.apply lib db.toStore).2 := by
  unfold planFence at h ⊢
  cases check with
  | error e => cases h
  | ok u =>
    cases hwritable : db.ensureWritable with
    | error e =>
      rw [hwritable] at h
      cases h
    | ok u =>
      rw [hwritable] at h
      refine ⟨rfl, ?_⟩
      rw [planRecord, finish] at h ⊢
      rcases db.commit_cases lib ctx
          { batch := .records [.command command], effect, planned := [], version := none
            reply := .ok } with ⟨e, herr, -⟩ | ⟨db', -, hcommit⟩
      · rw [herr] at h
        cases h
      · rw [hcommit, Write.apply]
        rcases effect.apply lib db.toStore with ⟨_ | a, s'⟩
        · rfl
        · dsimp only
          split <;> rfl

variable {d : GeofenceDef}

theorem Db.perform_define {fence : Fence} {endpoint : String}
    (h : (db.perform lib ctx (Fence.define endpoint d fence)).1 = .ok answer) :
    validateGeofenceDef lib d = .ok () ∧
    (∀ c id, (db.perform lib ctx (Fence.define endpoint d fence)).2.getObject c id =
      db.getObject c id) ∧
    (db.perform lib ctx (Fence.define endpoint d fence)).2.geofences.fence? fence =
      some (d, {}) := by
  cases fence with
  | channel name =>
    obtain ⟨hcheck, hstore⟩ := finish_planFence h
    have hnew : (db.perform lib ctx (Fence.define endpoint d (.channel name))).2.toStore =
        { db.toStore with geofences := db.geofences.setChannel name d } := hstore
    refine ⟨hcheck, fun c id => ?_, ?_⟩
    · rw [getObject, hnew]
      rfl
    · rw [hnew]
      show ((db.geofences.channels.set name () d).fences[name]?).map _ = _
      rw [FenceTable.fences_set, if_pos rfl]
      rfl
  | hook name =>
    obtain ⟨hcheck, hstore⟩ := finish_planFence h
    have hnew : (db.perform lib ctx (Fence.define endpoint d (.hook name))).2.toStore =
        { db.toStore with geofences := db.geofences.setHook name endpoint d } := hstore
    refine ⟨hcheck, fun c id => ?_, ?_⟩
    · rw [getObject, hnew]
      rfl
    · rw [hnew]
      show ((db.geofences.hooks.set name endpoint d).fences[name]?).map _ = _
      rw [FenceTable.fences_set, if_pos rfl]
      rfl

theorem validateOptions_of_roam {q : RoamQuery} (hroam : d.roam? = some q)
    (h : validateGeofenceDef lib d = .ok ()) : lib.validateOptions q.options = .ok () := by
  have hevaluable := evaluable_of_validate h
  rw [GeofenceDef.roam?] at hroam
  split at hroam
  next hquery =>
    cases hroam
    rw [validateGeofenceDef, hquery, hevaluable] at h
    dsimp only at h ⊢
    cases hmeters : validateMeters lib.toGeoLib _ with
    | error e =>
      rw [hmeters] at h
      cases h
    | ok u =>
      rw [hmeters] at h
      cases hoptions : lib.validateOptions _ with
      | error e =>
        rw [hoptions] at h
        cases h
      | ok u => rfl
  · cases hroam

theorem Db.tracks_define {f : FilterLib} (hlib : lib.FilteredBy f) (hwell : db.Wellformed)
    (hindexed : db.geofences.Indexed) {fence : Fence} {endpoint : String}
    {q : RoamQuery} (hroam : d.roam? = some q)
    (hdefine : (db.perform lib ctx (Fence.define endpoint d fence)).1 = .ok answer)
    (htimeless : ∀ c, c = d.collection ∨ c = q.targetCollection → ∀ id object,
      db.getObject c id = some object → object.expiresAt = none) :
    (db.perform lib ctx (Fence.define endpoint d fence)).2.Tracks lib fence d q [] ∧
      ∀ object, ∃ b, lib.matchesCandidate object q.options = .ok b := by
  obtain ⟨hcheck, hget, hfence⟩ := perform_define hdefine
  have hreach : db.Reaches lib (db.perform lib ctx (Fence.define endpoint d fence)).2 :=
    Db.Reaches.of_call lib db ctx (.request _)
  have hoptions := validateOptions_of_roam hroam hcheck
  rw [hlib.validates] at hoptions
  refine ⟨⟨hreach.wellformed hwell, Store.Reaches.indexed hreach hindexed, ?_, {}, hfence, ?_, ?_⟩,
    ?_⟩
  · intro c hc id object ho
    rw [hget] at ho
    exact htimeless c hc id object ho
  · intro key
    simp
  · intro s t
    have hempty : ¬ (s, t) ∈ (∅ : PairMap) := ExtTreeMap.not_mem_empty
    refine iff_of_false hempty ?_
    rintro ⟨source, target, -, -, -, hsince⟩
    simp at hsince
  · intro object
    rw [hlib.matches_]
    exact matchesCandidate_ok hoptions object

/-! ### The fence over a run -/

/-- A roaming fence over two collections, defined at any time on a database built from any log,
and then any SET, FSET and DEL calls on objects without deadlines. -/
theorem roaming_pairs_follow_writes {f : FilterLib} (hlib : lib.FilteredBy f) {ctx₀ : Ctx}
    {storage : LogStore} {config : Config} {db₀ : Db}
    (hbuild : (build lib ctx₀ storage config).1 = .ok db₀) (history : List (Ctx × Call))
    {fence : Fence} {endpoint : String} {d : GeofenceDef} {q : RoamQuery}
    (hroam : d.roam? = some q) (hne : d.collection ≠ q.targetCollection) {ctx : Ctx}
    {answer : Answer} {db : Db}
    (hdefine : (db₀.run lib history).perform lib ctx (Fence.define endpoint d fence) =
      (.ok answer, db))
    (htimeless : ∀ c, c = d.collection ∨ c = q.targetCollection → ∀ id object,
      (db₀.run lib history).getObject c id = some object → object.expiresAt = none)
    (calls : List (Ctx × Request)) (hcalls : ∀ call ∈ calls, call.2.untimed = true) :
    (∃ state, (db.edited lib calls).geofences.fence? fence = some (d, state) ∧
      ∀ s t, (s, t) ∈ state.pairs ↔
        (db.edited lib calls).Paired lib d q (db.written lib calls) s t) ∧
    (q.nodwell → ∀ next : Ctx × Request, next.2.untimed → ∀ s t,
      ((db.edited lib calls).reports lib fence next.1 next.2).count (some (s, t)) ≤ 1 ∧
      (some (s, t) ∈ (db.edited lib calls).reports lib fence next.1 next.2 ↔
        (∃ command, next.2.command? = some command ∧ d.Selects command .roam) ∧
        ¬ (db.edited lib calls).Paired lib d q (db.written lib calls) s t ∧
        (db.edited lib (calls ++ [next])).Paired lib d q (db.written lib (calls ++ [next])) s t)) ∧
    (q.nodwell → ∀ stay : List (Ctx × Request), (∀ call ∈ stay, call.2.untimed = true) →
      ∀ s t, (∀ earlier, earlier ≠ [] → earlier <+: stay →
        (db.edited lib (calls ++ earlier)).Paired lib d q (db.written lib (calls ++ earlier)) s t) →
      ((db.edited lib calls).reported lib fence stay).count (some (s, t)) ≤ 1) := by
  have hreach := Relation.ReflTransGen.trans (Db.reaches_build hbuild)
    (Db.Reaches.of_run lib db₀ history)
  have hindexed : (db₀.run lib history).geofences.Indexed :=
    Store.Reaches.indexed hreach ⟨FenceTable.indexed_empty, FenceTable.indexed_empty⟩
  obtain ⟨hstart, hallowed⟩ := Db.tracks_define hlib (Db.wellformed_run hbuild history) hindexed
    hroam (congrArg Prod.fst hdefine) htimeless
  rw [hdefine] at hstart
  have hnow := hstart.edited hroam hne hallowed hcalls
  have hedited : ∀ later, db.edited lib (calls ++ later) = (db.edited lib calls).edited lib later :=
    fun later => foldl_append
  have hwritten : ∀ later, db.written lib (calls ++ later) =
      [] ++ db.written lib calls ++ (db.edited lib calls).written lib later :=
    fun later => Db.written_append db calls later
  refine ⟨?_, ?_, ?_⟩
  · obtain ⟨state, hfence, -, hpairs⟩ := hnow.remembered
    exact ⟨state, hfence, hpairs⟩
  · intro hdwell next hnext s t
    have hstep := (hnow.perform lib hroam hne hallowed next.1 hnext).2 hdwell s t
    rw [hedited, hwritten, Db.written, Db.written, append_nil]
    exact hstep
  · intro hdwell stay hstay s t hnear
    refine (hnow.stay hroam hne hallowed hdwell hstay fun earlier hsome hprefix => ?_).1
    rw [← hwritten, ← hedited]
    exact hnear earlier hsome hprefix

namespace Depot

open Sample

def depotLib : Lib := blankLib.instantiate plain touching id fun _ => ""

def depot : GeofenceDef where
  collection := "fleet"
  query := .roam "yard" "crane" F64.ninety {} true
  detect := []
  commands := []

def park (collection id : String) : Ctx × Request :=
  (sampleCtx, .set { collection, id, object := .point F64.zero F64.zero none, fields := []
                     expireSeconds := none, condition := .always })

/-- The crane was there before the truck. -/
theorem truck_meets_crane : ∃ db₀ db answer state,
    (build depotLib sampleCtx {} {}).1 = .ok db₀ ∧
    db₀.perform depotLib sampleCtx (Fence.define "" depot (.channel "near")) = (.ok answer, db) ∧
    (db.edited depotLib [park "yard" "crane", park "fleet" "truck"]).geofences.fence?
      (.channel "near") = some (depot, state) ∧
    ("truck", "crane") ∈ state.pairs := by
  have hfollows := @roaming_pairs_follow_writes depotLib plain
    (Lib.filteredBy_instantiate _ _ _ _ _) sampleCtx {} {} _ rfl [] (.channel "near") "" depot
    _ rfl (by decide) sampleCtx _ _ rfl nofun [park "yard" "crane", park "fleet" "truck"] (by decide)
  obtain ⟨⟨state, hfence, hpairs⟩, -⟩ := hfollows
  refine ⟨_, _, _, state, rfl, rfl, hfence, (hpairs _ _).2 ?_⟩
  exact ⟨_, _, rfl, rfl, ⟨by decide, rfl, rfl, rfl⟩, .inl (by decide)⟩

end Depot

end LatLng.Core
