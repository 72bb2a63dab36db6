import LatLng.Core.Write

/-! What holds of every collection of a store. A property that each update of a collection
keeps, always or if it succeeds, is kept so by every step of the store: writes, replay and the
removal of expired objects. -/

namespace LatLng.Core

open Geo Geofence Storage Std

variable (lib : Lib)

def Settles {ε α β : Type} (P Q : β → Prop) : Except ε α × β → Prop
  | (.ok _, b) => P b
  | (.error _, b) => Q b

theorem Settles.same {ε α β : Type} {P : β → Prop} {r : Except ε α × β} (h : Settles P P r) :
    P r.2 := by
  obtain ⟨_ | _, b⟩ := r <;> exact h

structure Collection.KeptOr (P Q : Collection → Prop) : Prop where
  weaken : ∀ c, P c → Q c
  new : ∀ name, P { name }
  renamed : ∀ (c : Collection) (name : String), P c → P { c with name }
  upsert : ∀ (c : Collection) (object : Object), P c →
    Settles P Q (c.upsert lib.toFenceLib object)
  remove : ∀ (c : Collection) (id : String), P c → P (c.remove id).2
  insertFields : ∀ (c : Collection) (id : String) (fields : List FieldEntry), P c →
    P (c.insertFields id fields).2
  setExpiry : ∀ (c : Collection) (id : String) (expiresAt : Option Nat), P c →
    P (c.setExpiry id expiresAt).2
  replaceGeo : ∀ (c : Collection) (id : String) (geo : GeoType), P c →
    Settles P Q (c.replaceGeo lib.toFenceLib id geo)
  replayGeo : ∀ (c : Collection) (id : String) (object : Object) (geo : GeoType),
    c.objects[id]? = some object → P c →
      P ((c.setGeo id object geo).reindexSpatial lib.toFenceLib id)

variable {lib} in
theorem Collection.KeptOr.of_changes {P Q : Collection → Prop} (hkeyed : ∀ c, P c → c.Keyed)
    (hweaken : ∀ c, P c → Q c) (hnew : ∀ name, P { name })
    (hrenamed : ∀ (c : Collection) (name : String), P c → P { c with name })
    (hunindex : ∀ (c : Collection) id, P c → Q (c.unindex id))
    (hchange : ∀ (c : Collection) id c', P c → c.Changes id c' → P c') :
    Collection.KeptOr lib P Q where
  weaken := hweaken
  new := hnew
  renamed := hrenamed
  upsert c object h := by
    rcases c.upsert_cases lib.toFenceLib object with ⟨-, hok, -⟩ | ⟨-, e, herr, hr⟩
    · have hchanged := hchange c object.id _ h (upsert_reindexes hok).toChanges
      rcases hu : c.upsert lib.toFenceLib object with ⟨_ | _, c'⟩ <;> rw [hu] at hok hchanged
      · cases hok
      · exact hchanged
    · rcases hu : c.upsert lib.toFenceLib object with ⟨_ | _, c'⟩ <;> rw [hu] at herr hr
      · rw [show c' = _ from hr]
        exact hunindex c object.id h
      · cases herr
  remove c id h := hchange c id _ h (remove_changes (hkeyed c h) id)
  insertFields c id fields h :=
    hchange c id _ h (@insertFields_reindexes lib.toFenceLib c (hkeyed c h) id fields).toChanges
  setExpiry c id expiresAt h :=
    hchange c id _ h (@setExpiry_reindexes lib.toFenceLib c (hkeyed c h) id expiresAt).toChanges
  replaceGeo c id geo h := by
    have hchanged := hchange c id _ h (@replaceGeo_reindexes lib.toFenceLib c (hkeyed c h) id geo).toChanges
    rcases hr : c.replaceGeo lib.toFenceLib id geo with ⟨_ | _, c'⟩ <;> rw [hr] at hchanged
    · exact hweaken c' hchanged
    · exact hchanged
  replayGeo c id object geo ho h := hchange c id _ h (replayGeo_reindexes (hkeyed c h) ho geo).toChanges

def Store.Each (P : Collection → Prop) (s : Store) : Prop :=
  ∀ (name : String) (cell : VersionedCollection), s.collections[name]? = some cell →
    P cell.collection

/-! ### Removing expired objects -/

section Expiry

variable {P : Collection → Prop}
  (hremove : ∀ (c : Collection) (id : String), P c → P (c.remove id).2)

include hremove

theorem Collection.removeAll_kept (ids : List String) {c : Collection} (h : P c) :
    P (ids.foldl (fun c id => (c.remove id).2) c) := by
  induction ids generalizing c with
  | nil => exact h
  | cons i ids ih => exact ih (hremove c i h)

theorem Store.Each.gcCollections {s : Store} (h : s.Each P) (now : Nat) :
    (s.gcCollections now).Each P := by
  intro name cell hcell
  rw [Store.gcCollections, ExtTreeMap.getElem?_map] at hcell
  obtain ⟨cell', hcell', rfl⟩ := Option.map_eq_some_iff.1 hcell
  rw [VersionedCollection.gc]
  split
  · exact h name cell' hcell'
  · exact Collection.removeAll_kept hremove _ (h name cell' hcell')

end Expiry

namespace Store.Each

variable {P : Collection → Prop}

theorem empty : ({} : Store).Each P := by
  intro name cell hcell
  simp at hcell

theorem clear (s : Store) : s.clear.Each P := by
  intro name cell hcell
  simp [Store.clear] at hcell

variable {s : Store} (h : s.Each P)

theorem mono {Q : Collection → Prop} (h : s.Each P) (hPQ : ∀ c, P c → Q c) : s.Each Q :=
  fun name cell hcell => hPQ _ (h name cell hcell)

include h

theorem setCell {name : String} {cell : VersionedCollection} (hcell : P cell.collection) :
    (s.setCell name cell).Each P :=
  Lib.Every.insert (P := P ∘ VersionedCollection.collection) h name hcell

theorem erase (name : String) :
    ({ s with collections := s.collections.erase name } : Store).Each P :=
  Lib.Every.erase (P := P ∘ VersionedCollection.collection) h name

theorem updateCell (name : String) {f : VersionedCollection → VersionedCollection}
    (hf : ∀ v, P v.collection → P (f v).collection) : (s.updateCell name f).Each P := by
  intro other cell hc
  rw [Store.updateCell, ExtTreeMap.getElem?_modify] at hc
  split at hc
  · obtain ⟨cell', hcell', rfl⟩ := Option.map_eq_some_iff.1 hc
    exact hf cell' (h _ cell' hcell')
  · exact h other cell hc

end Store.Each

namespace Collection.KeptOr

variable {lib} {P Q : Collection → Prop} (hP : Collection.KeptOr lib P Q)

include hP

/-! ### One collection -/

section Cell

variable {v : VersionedCollection} (h : P v.collection)

include h

theorem mutation (m : Mutation) :
    Settles (fun v => P v.collection) (fun v => Q v.collection) (m.apply lib v) := by
  cases m with
  | upsert object =>
    have hk := hP.upsert _ object h
    rw [Mutation.apply]
    rcases hr : v.collection.upsert lib.toFenceLib object with ⟨_ | _, c⟩ <;> rw [hr] at hk <;>
      exact hk
  | remove id =>
    have hk := hP.remove _ id h
    rw [Mutation.apply]
    rcases hr : v.collection.remove id with ⟨_ | _, c⟩ <;> rw [hr] at hk <;> exact hk
  | insertFields id fields =>
    have hk := hP.insertFields _ id fields h
    rw [Mutation.apply]
    rcases hr : v.collection.insertFields id fields with ⟨_ | _, c⟩
    · exact h
    · rw [hr] at hk
      exact hk
  | setExpiry id expiresAt =>
    have hk := hP.setExpiry _ id expiresAt h
    rw [Mutation.apply]
    rcases hr : v.collection.setExpiry id expiresAt with ⟨_ | _, c⟩
    · exact h
    · rw [hr] at hk
      exact hk
  | replaceGeo id geo clearTtl =>
    have hk := hP.replaceGeo _ id geo h
    rw [Mutation.apply]
    rcases hr : v.collection.replaceGeo lib.toFenceLib id geo with ⟨_ | _, c⟩ <;> rw [hr] at hk
    · exact hk
    · cases clearTtl with
      | false => exact hk
      | true => exact hP.setExpiry _ id none hk

theorem replaySetExpiry (id : String) (expiresAt : Option Nat) :
    P (v.setExpiry id expiresAt).collection := by
  have hk := hP.setExpiry _ id expiresAt h
  rw [VersionedCollection.setExpiry]
  rcases hr : v.collection.setExpiry id expiresAt with ⟨_ | _, c⟩
  · exact h
  · rw [hr] at hk
    exact hk

theorem replayEdit (id : String) (edit : Json → Except GeoError Json) :
    P (v.replayEdit lib id edit).collection := by
  rw [VersionedCollection.replayEdit]
  cases ho : v.collection.objects[id]? with
  | none => exact h
  | some object =>
    dsimp only
    split
    · exact hP.replayGeo _ id object _ ho h
    · exact h

end Cell

/-! ### The store -/

variable {s : Store} (h : s.Each P)

include h

theorem ensureCollectionCell (name : String) : P (s.ensureCollectionCell name).collection := by
  rw [Store.ensureCollectionCell]
  cases hc : s.collections[name]? with
  | none => exact hP.new name
  | some cell => exact h name cell hc

theorem renameCell (name newName : String) : (s.renameCell name newName).Each P := by
  rw [Store.renameCell]
  cases hs : s.collections[name]? with
  | none => exact h
  | some cell =>
    exact (h.erase name).setCell (hP.renamed _ newName (h name cell hs))

theorem effect (effect : Effect) : Settles (Store.Each P) (Store.Each Q) (effect.apply lib s) := by
  cases effect with
  | mutate c m =>
    have hk := hP.mutation (hP.ensureCollectionCell h c) m
    rw [Effect.apply]
    rcases hr : m.apply lib (s.ensureCollectionCell c) with ⟨_ | _, cell⟩ <;> rw [hr] at hk
    · exact (h.mono hP.weaken).setCell hk
    · exact h.setCell hk
  | createCollection c => exact h.setCell (hP.ensureCollectionCell h c)
  | dropCollection c => exact h.erase c
  | rename c newName => exact hP.renameCell h c newName
  | _ => exact h

theorem write (w : Write) : Settles (Store.Each P) (Store.Each Q) (w.apply lib s) := by
  -- an answer that is an error comes after a change that was made
  have hreply : ∀ {r : Except CoreError Answer} {s' : Store}, s'.Each P →
      Settles (Store.Each P) (Store.Each Q) (r, s') := by
    rintro (_ | _) s' hs'
    · exact hs'.mono hP.weaken
    · exact hs'
  have he := hP.effect h w.effect
  rw [Write.apply]
  rcases hr : w.effect.apply lib s with ⟨_ | _, s'⟩ <;> rw [hr] at he
  · exact he
  · dsimp only
    split <;> exact hreply he

theorem replayUpsert (name : String) (object : Object) :
    Settles (Store.Each P) (Store.Each Q) (s.replayUpsert lib name object) := by
  have hk := hP.upsert _ object (hP.ensureCollectionCell h name)
  rw [Store.replayUpsert]
  rcases hr : (s.ensureCollectionCell name).collection.upsert lib.toFenceLib object with
    ⟨_ | _, c⟩ <;> rw [hr] at hk
  · exact (h.mono hP.weaken).setCell hk
  · exact h.setCell hk

theorem applyPersistedCommand (now : Nat) (command : Command) :
    Settles (Store.Each P) (Store.Each Q) (applyPersistedCommandToState lib now s command) := by
  cases command with
  | set req => exact hP.replayUpsert h _ _
  | setPersisted record => exact hP.replayUpsert h _ _
  | del collection id => exact h.updateCell collection fun v hv => hP.remove _ id hv
  | fset collection id fields xx =>
    refine h.updateCell collection fun v hv => ?_
    have hk := hP.insertFields _ id fields hv
    rcases hr : v.collection.insertFields id fields with ⟨_ | _, c⟩
    · exact hv
    · rw [hr] at hk
      exact hk
  | expire collection id seconds | expireAt collection id deadline | persist collection id =>
    exact h.updateCell collection fun v hv => hP.replaySetExpiry hv id _
  | jset collection id path value raw =>
    exact h.updateCell collection fun v hv => hP.replayEdit hv id _
  | jdel collection id path => exact h.updateCell collection fun v hv => hP.replayEdit hv id _
  | createCollection collection => exact h.setCell (hP.ensureCollectionCell h collection)
  | dropCollection collection => exact h.erase collection
  | rename collection newName => exact hP.renameCell h collection newName
  | flushDb => exact Store.Each.clear s
  | setHook name endpoint d | setChannel name d =>
    rw [applyPersistedCommandToState]
    split <;> exact h
  | _ => exact h

theorem applyPersistedEntries (now : Nat) (entries : List StorageEntry) :
    Settles (Store.Each P) (Store.Each Q) (applyPersistedEntries lib now s entries) := by
  induction entries generalizing s with
  | nil => exact h
  | cons entry entries ih =>
    have hfirst : Settles (Store.Each P) (Store.Each Q)
        (applyPersistedEntryToState lib now s entry) := by
      rw [applyPersistedEntryToState]
      split
      · exact h.mono hP.weaken
      · exact hP.applyPersistedCommand h now _
      · exact h
    rw [Core.applyPersistedEntries]
    rcases hr : applyPersistedEntryToState lib now s entry with ⟨_ | _, s'⟩ <;> rw [hr] at hfirst
    · exact hfirst
    · exact ih hfirst

end Collection.KeptOr

/-! ### Ids and deadlines -/

theorem Collection.keyed_kept : Collection.KeptOr lib Keyed Keyed :=
  .of_changes (fun _ h => h) (fun _ h => h) keyed_new (fun _ _ h => ⟨h.ids, h.deadlines⟩)
    (fun _ id h => h.unindex id) fun _ _ _ h hc => h.change hc

end LatLng.Core
