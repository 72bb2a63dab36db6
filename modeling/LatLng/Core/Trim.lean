import LatLng.Core.Cells

/-! A view next to a fuller one that still holds objects past their deadline. Commands that
do not revive such an object keep the two views in this relation. -/

namespace LatLng.Core

open Geo Geofence Std ExtTreeMap

variable {lib : Lib}

namespace View

variable (v : View)

theorem get_upsert (collection : String) (object : Object) (c id : String) :
    (v.upsert collection object).get c id =
      if collection = c ∧ object.id = id then some object else v.get c id := by
  by_cases hc : collection = c
  · subst hc
    by_cases hid : object.id = id
    · subst hid
      simp [get, upsert]
    · cases h : v.collections[collection]? <;>
        simp [get, upsert, h, hid, getElem?_insert]
  · simp [get, upsert, hc, getElem?_insert]

theorem get_modify (collection : String) (key : String) (f : Object → Object) (c id : String) :
    (v.update collection (·.modify key f)).get c id =
      if collection = c ∧ key = id then (v.get c id).map f else v.get c id := by
  by_cases hc : collection = c
  · subst hc
    by_cases hid : key = id
    · subst hid
      cases h : v.collections[collection]? <;> simp [get, update, h]
    · cases h : v.collections[collection]? <;>
        simp [get, update, h, hid, getElem?_modify]
  · simp [get, update, hc, getElem?_modify]

theorem get_erase (collection key c id : String) :
    (v.update collection (·.erase key)).get c id =
      if collection = c ∧ key = id then none else v.get c id := by
  by_cases hc : collection = c
  · subst hc
    cases h : v.collections[collection]? with
    | none => simp [get, update, h]
    | some objects => by_cases hid : key = id <;>
        simp [get, update, h, hid, getElem?_erase]
  · simp [get, update, hc, getElem?_modify]

theorem isSome_update (collection : String) (f : Objects → Objects) (c : String) :
    (v.update collection f).collections[c]?.isSome = v.collections[c]?.isSome := by
  by_cases hc : collection = c
  · subst hc
    cases h : v.collections[collection]? <;> simp [update, h]
  · simp [update, hc, getElem?_modify]

end View

structure Trimmed (now : Nat) (full kept : View) : Prop where
  names : ∀ c : String, kept.collections[c]?.isSome = full.collections[c]?.isSome
  objects : ∀ c id, kept.get c id = full.get c id ∨
    (kept.get c id = none ∧ ∃ object, full.get c id = some object ∧ isExpired now object = true)
  channels : kept.channels = full.channels
  hooks : kept.hooks = full.hooks

theorem Trimmed.refl (now : Nat) (v : View) : Trimmed now v v :=
  ⟨fun _ => rfl, fun _ _ => .inl rfl, rfl, rfl⟩

variable {now : Nat}

theorem isExpired_mono {later : Nat} (hle : now ≤ later) {object : Object}
    (h : isExpired now object) : isExpired later object = true := by
  rw [isExpired] at h ⊢
  cases hd : object.expiresAt with
  | none => rw [hd] at h; cases h
  | some deadline =>
    rw [hd] at h
    exact decide_eq_true ((of_decide_eq_true h).trans hle)

namespace Trimmed

variable {now : Nat} {full kept : View} (h : Trimmed now full kept)

include h

theorem mono {later : Nat} (hle : now ≤ later) : Trimmed later full kept := by
  refine ⟨h.names, ?_, h.channels, h.hooks⟩
  intro c id
  rcases h.objects c id with heq | ⟨hnone, object, hfull, hexp⟩
  · exact .inl heq
  · exact .inr ⟨hnone, object, hfull, isExpired_mono hle hexp⟩

theorem trans {v : View} (h' : Trimmed now kept v) : Trimmed now full v := by
  refine ⟨fun c => (h'.names c).trans (h.names c), ?_, h'.channels.trans h.channels,
    h'.hooks.trans h.hooks⟩
  intro c id
  rcases h'.objects c id with heq | ⟨hnone, object, hkept, hexp⟩
  · rw [heq]
    exact h.objects c id
  · rcases h.objects c id with heq | ⟨hnone', -⟩
    · exact .inr ⟨hnone, object, heq ▸ hkept, hexp⟩
    · rw [hkept] at hnone'
      cases hnone'

theorem get_of_get {c id : String} {object : Object}
    (hget : kept.get c id = some object) : full.get c id = some object := by
  rcases h.objects c id with heq | ⟨hnone, -⟩
  · exact heq ▸ hget
  · rw [hget] at hnone
    cases hnone

theorem upsert (collection : String) (object : Object) :
    Trimmed now (full.upsert collection object) (kept.upsert collection object) := by
  refine ⟨?_, ?_, h.channels, h.hooks⟩
  · intro c
    have := h.names c
    by_cases hc : collection = c <;>
      simp [View.upsert, getElem?_insert, hc, this]
  · intro c id
    rw [View.get_upsert, View.get_upsert]
    split
    · exact .inl rfl
    · exact h.objects c id

theorem erase (collection key : String) :
    Trimmed now (full.update collection (·.erase key)) (kept.update collection (·.erase key)) := by
  refine ⟨?_, ?_, h.channels, h.hooks⟩
  · intro c
    rw [View.isSome_update, View.isSome_update]
    exact h.names c
  · intro c id
    rw [View.get_erase, View.get_erase]
    split
    · exact .inl rfl
    · exact h.objects c id

theorem modify (collection key : String) (f : Object → Object)
    (hlive : (kept.get collection key).isSome ∨
      ∀ object, isExpired now object → isExpired now (f object) = true) :
    Trimmed now (full.update collection (·.modify key f))
      (kept.update collection (·.modify key f)) := by
  refine ⟨?_, ?_, h.channels, h.hooks⟩
  · intro c
    rw [View.isSome_update, View.isSome_update]
    exact h.names c
  · intro c id
    rw [View.get_modify, View.get_modify]
    split
    next hkey =>
      obtain ⟨rfl, rfl⟩ := hkey
      rcases h.objects collection key with heq | ⟨hnone, object, hfull, hexp⟩
      · exact .inl (by rw [heq])
      · rcases hlive with hsome | hstays
        · rw [hnone] at hsome
          cases hsome
        · exact .inr ⟨by rw [hnone]; rfl, f object, by rw [hfull]; rfl, hstays object hexp⟩
    next => exact h.objects c id

theorem drop (collection : String) :
    Trimmed now { full with collections := full.collections.erase collection }
      { kept with collections := kept.collections.erase collection } := by
  refine ⟨?_, ?_, h.channels, h.hooks⟩
  · intro c
    have := h.names c
    by_cases hc : collection = c <;> simp [getElem?_erase, hc, this]
  · intro c id
    by_cases hc : collection = c
    · simp [View.get, hc]
    · simpa [View.get, getElem?_erase, hc] using h.objects c id

theorem create (collection : String) :
    Trimmed now
      { full with
        collections := full.collections.insert collection (full.collections[collection]?.getD ∅) }
      { kept with
        collections :=
          kept.collections.insert collection (kept.collections[collection]?.getD ∅) } := by
  have hget : ∀ (v : View) (c id : String),
      ({ v with collections :=
        v.collections.insert collection (v.collections[collection]?.getD ∅) } : View).get c id =
      v.get c id := by
    intro v c id
    by_cases hc : collection = c
    · subst hc
      cases hv : v.collections[collection]? <;> simp [View.get, hv]
    · simp [View.get, getElem?_insert, hc]
  refine ⟨?_, ?_, h.channels, h.hooks⟩
  · intro c
    have := h.names c
    by_cases hc : collection = c <;> simp [getElem?_insert, hc, this]
  · intro c id
    rw [hget, hget]
    exact h.objects c id

theorem rename (collection newName : String) :
    Trimmed now (full.rename collection newName) (kept.rename collection newName) := by
  have hname := h.names collection
  cases hf : full.collections[collection]? with
  | none =>
    rw [hf] at hname
    have hk : kept.collections[collection]? = none :=
      Option.isNone_iff_eq_none.1 (Option.isSome_eq_false_iff.1 hname)
    rw [View.rename, View.rename, hf, hk]
    exact h
  | some fobjects =>
    obtain ⟨kobjects, hk⟩ := Option.isSome_iff_exists.1 (hname.trans (by rw [hf]; rfl))
    rw [View.rename, View.rename, hf, hk]
    refine ⟨?_, ?_, h.channels, h.hooks⟩
    · intro c
      have := h.names c
      by_cases hn : newName = c <;> by_cases hc : collection = c <;>
        simp [getElem?_insert, getElem?_erase, hn, hc, this]
    · intro c id
      have hmoved := h.objects collection id
      have hother := h.objects c id
      simp only [View.get, hf, hk, Option.bind_some] at hmoved
      by_cases hn : newName = c
      · simpa [View.get, getElem?_insert, hn] using hmoved
      · by_cases hc : collection = c
        · subst hc
          simp [View.get, hn]
        · simpa [View.get, getElem?_insert, getElem?_erase, hn,
            hc] using hother

end Trimmed

def Command.Applies (v : View) : Command → Prop
  | .expire collection id _ => (v.get collection id).isSome
  | .expireAt collection id _ => (v.get collection id).isSome
  | .persist collection id => (v.get collection id).isSome
  | _ => True

theorem isExpired_editGeo (now : Nat) (edit : Json → Except GeoError Json) (object : Object) :
    isExpired now (editGeo edit object) = isExpired now object := by
  obtain ⟨id, geo, fields, expiresAt⟩ := object
  cases geo with
  | geoJson json =>
    rw [editGeo]
    dsimp only
    cases edit json <;> rfl
  | _ => rfl

theorem Trimmed.apply {at_ : Nat} {full kept : View} (h : Trimmed now full kept)
    (command : Command) (happlies : command.Applies kept) :
    Trimmed now (full.apply lib at_ command) (kept.apply lib at_ command) := by
  cases command with
  | set req => exact h.upsert _ _
  | setPersisted record => exact h.upsert _ _
  | del collection id => exact h.erase collection id
  | dropCollection collection => exact h.drop collection
  | rename collection newName => exact h.rename collection newName
  | createCollection collection => exact h.create collection
  | fset collection id fields xx => exact h.modify _ _ _ (.inr fun _ ho => ho)
  | expire collection id seconds | expireAt collection id deadline | persist collection id =>
    exact h.modify _ _ _ (.inl happlies)
  | jset collection id path value raw | jdel collection id path =>
    exact h.modify _ _ _ (.inr fun o ho => by rwa [isExpired_editGeo])
  | setHook name endpoint d =>
    simp only [View.apply]
    split
    · exact ⟨h.names, h.objects, h.channels, by rw [h.hooks]⟩
    · exact h
  | delHook name | pdelHook pattern =>
    exact ⟨h.names, h.objects, h.channels, by simp only [View.apply, h.hooks]⟩
  | setChannel name d =>
    simp only [View.apply]
    split
    · exact ⟨h.names, h.objects, by rw [h.channels], h.hooks⟩
    · exact h
  | delChannel name | pdelChannel pattern =>
    exact ⟨h.names, h.objects, by simp only [View.apply, h.channels], h.hooks⟩
  | flushDb => exact Trimmed.refl now _

/-! ### Removing expired objects -/

def Store.Keyed (s : Store) : Prop :=
  ∀ (name : String) (cell : VersionedCollection), s.collections[name]? = some cell →
    cell.collection.Keyed

theorem foldl_remove_objects (ids : List String) (c : Collection) (id : String) :
    (ids.foldl (fun c id => (c.remove id).2) c).objects[id]? =
      if id ∈ ids then none else c.objects[id]? := by
  induction ids generalizing c with
  | nil => simp
  | cons i ids ih =>
    rw [List.foldl_cons, ih, Collection.objects_remove, getElem?_erase]
    by_cases hi : i = id <;> by_cases hm : id ∈ ids <;> simp [hi, hm, Ne.symm]

theorem VersionedCollection.gc_objects {v : VersionedCollection}
    (h : v.collection.Keyed) (id : String) :
    (v.gc now).objects[id]? = v.objects[id]? ∨
      ((v.gc now).objects[id]? = none ∧
        ∃ object, v.objects[id]? = some object ∧ isExpired now object = true) := by
  rw [gc]
  split
  · exact .inl rfl
  · rw [VersionedCollection.objects, VersionedCollection.bump, foldl_remove_objects]
    split
    next hmem => exact .inr ⟨rfl, h.expired_of_due hmem⟩
    next => exact .inl rfl

theorem Store.Keyed.gcCollections {s : Store} (h : s.Keyed) (now : Nat) :
    (s.gcCollections now).Keyed :=
  Store.Each.gcCollections (fun _ id hc => hc.remove id) h now

theorem Store.Keyed.trimmed_gc {s : Store} (h : s.Keyed) (now : Nat) :
    Trimmed now s.view (s.gcCollections now).view := by
  have hget : ∀ name : String, (s.gcCollections now).view.collections[name]? =
      s.collections[name]?.map fun cell => (cell.gc now).objects := by
    intro name
    rw [Store.collections_view, Store.gcCollections, getElem?_map, Option.map_map]
    rfl
  refine ⟨?_, ?_, rfl, rfl⟩
  · intro c
    rw [hget, Store.collections_view, Option.isSome_map, Option.isSome_map]
  · intro c id
    rw [View.get, View.get, hget, Store.collections_view]
    cases hc : s.collections[c]? with
    | none => exact .inl rfl
    | some cell => exact VersionedCollection.gc_objects (h c cell hc) id

end LatLng.Core
