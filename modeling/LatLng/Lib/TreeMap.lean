import Mathlib

/-! Ordered maps and sets: pairs compared lexicographically, and building a map from the
list of its entries. -/

namespace LatLng.Lib

open List Std ExtTreeMap

section Pairs

variable {α β : Type} [Ord α] [Ord β]

abbrev pairCmp : α × β → α × β → Ordering := compareLex (compareOn Prod.fst) (compareOn Prod.snd)

instance [TransOrd α] [TransOrd β] :
    TransCmp (pairCmp : α × β → α × β → Ordering) :=
  inferInstanceAs (TransCmp (compareLex _ _))

instance [LawfulEqOrd α] [LawfulEqOrd β] :
    LawfulEqCmp (pairCmp : α × β → α × β → Ordering) where
  eq_of_compare := by
    intro a b h
    rw [pairCmp, compareLex_eq_eq] at h
    exact Prod.ext (LawfulEqCmp.eq_of_compare h.1) (LawfulEqCmp.eq_of_compare h.2)
  compare_self := by
    intro a
    rw [pairCmp, compareLex_eq_eq]
    exact ⟨ReflCmp.compare_self, ReflCmp.compare_self⟩

end Pairs

theorem foldl_hom_mem {α β γ : Type} {f : β → α → β} {g : γ → α → γ} (put : γ → β) {l : List α}
    (h : ∀ a ∈ l, ∀ c, f (put c) a = put (g c a)) (c : γ) :
    l.foldl f (put c) = put (l.foldl g c) := by
  induction l generalizing c with
  | nil => rfl
  | cons a l ih =>
    rw [foldl_cons, foldl_cons, h a mem_cons_self]
    exact ih (fun b hb => h b (mem_cons_of_mem a hb)) _

theorem values_eq_map {α β : Type} {cmp : α → α → Ordering} [TransCmp cmp]
    (m : ExtTreeMap α β cmp) : m.values = m.toList.map Prod.snd := by
  obtain ⟨m⟩ := m
  induction m using ExtDTreeMap.inductionOn with
  | _ m =>
    change DTreeMap.Internal.Impl.values _ =
      (DTreeMap.Internal.Impl.Const.toList _).map Prod.snd
    rw [DTreeMap.Internal.Impl.values_eq_map_snd,
      DTreeMap.Internal.Impl.Const.toList_eq_toListModel_map, List.map_map]
    rfl

section Build

variable {α β : Type} {cmp : α → α → Ordering} [TransCmp cmp]

theorem foldl_insert_eq_insertMany (entries : List (α × β)) (m : ExtTreeMap α β cmp) :
    entries.foldl (fun m e => m.insert e.1 e.2) m = m.insertMany entries := by
  induction entries generalizing m with
  | nil => simp
  | cons e entries ih => rw [foldl_cons, ih, insertMany_cons]

variable [LawfulEqCmp cmp] {entries : List (α × β)} {m : ExtTreeMap α β cmp}

theorem foldl_insert_eq [DecidableEq α] (hkeys : entries.Pairwise fun a b => ¬ cmp a.1 b.1 = .eq)
    (hmem : ∀ k b, (k, b) ∈ entries ↔ m[k]? = some b) :
    entries.foldl (fun m e => m.insert e.1 e.2) (∅ : ExtTreeMap α β cmp) = m := by
  rw [foldl_insert_eq_insertMany, ← ofList_eq_insertMany_empty]
  apply ExtTreeMap.ext_getElem?
  intro k
  cases h : m[k]? with
  | some v =>
    exact getElem?_ofList_of_mem ReflCmp.compare_self hkeys ((hmem k v).2 h)
  | none =>
    have hk : k ∉ entries.map Prod.fst := by
      intro hk
      obtain ⟨⟨k', b⟩, hb, rfl⟩ := mem_map.1 hk
      rw [(hmem _ b).1 hb] at h
      cases h
    simpa using hk

theorem getElem?_foldl_insert [DecidableEq α] (hkeys : (entries.map Prod.fst).Nodup) (k : α) (b : β) :
    (entries.foldl (fun m e => m.insert e.1 e.2) (∅ : ExtTreeMap α β cmp))[k]? = some b ↔
      (k, b) ∈ entries := by
  have hdistinct : entries.Pairwise fun a b => ¬ cmp a.1 b.1 = .eq :=
    (pairwise_map.1 hkeys).imp fun hne heq => hne (LawfulEqCmp.eq_of_compare heq)
  rw [foldl_insert_eq_insertMany, ← ofList_eq_insertMany_empty]
  constructor
  · intro h
    by_cases hk : k ∈ entries.map Prod.fst
    · obtain ⟨⟨k', b'⟩, hmem, rfl⟩ := mem_map.1 hk
      have hfound := getElem?_ofList_of_mem
        (@ReflCmp.compare_self α cmp _ k') hdistinct hmem
      rw [h] at hfound
      cases hfound
      exact hmem
    · rw [getElem?_ofList_of_contains_eq_false (by simpa using hk)] at h
      cases h
  · exact getElem?_ofList_of_mem ReflCmp.compare_self hdistinct

theorem foldl_insert_toList [DecidableEq α] (m : ExtTreeMap α β cmp) :
    m.toList.foldl (fun m e => m.insert e.1 e.2) (∅ : ExtTreeMap α β cmp) = m :=
  foldl_insert_eq distinct_keys_toList
    fun _ _ => mem_toList_iff_getElem?_eq_some

theorem eq_toList_of_foldl_insert (hkeys : entries.map Prod.fst = m.toList.map Prod.fst)
    (hm : entries.foldl (fun m e => m.insert e.1 e.2) ∅ = m) : entries = m.toList := by
  have hdistinct : entries.Pairwise fun a b => ¬ cmp a.1 b.1 = .eq := by
    have hpairs := distinct_keys_toList (t := m)
    rw [← pairwise_map (f := Prod.fst) (R := fun a b => ¬ cmp a b = .eq)] at hpairs ⊢
    rwa [hkeys]
  have hmem : ∀ e ∈ entries, m[e.1]? = some e.2 := by
    intro e he
    rw [← hm, foldl_insert_eq_insertMany, ← ofList_eq_insertMany_empty]
    exact getElem?_ofList_of_mem ReflCmp.compare_self hdistinct he
  refine ext_getElem ?_ fun i h h' => ?_
  · simpa using congrArg length hkeys
  · have hkey : (entries[i]).1 = (m.toList[i]).1 := by
      have hi : (entries.map Prod.fst)[i]? = (m.toList.map Prod.fst)[i]? := by rw [hkeys]
      rw [getElem?_map, getElem?_map, getElem?_eq_getElem h,
        getElem?_eq_getElem h'] at hi
      exact Option.some.inj hi
    have hleft := hmem _ (getElem_mem h)
    have hright : m[(m.toList[i]).1]? = some (m.toList[i]).2 :=
      mem_toList_iff_getElem?_eq_some.1 (getElem_mem h')
    rw [hkey, hright] at hleft
    exact Prod.ext hkey (Option.some.inj hleft).symm

theorem getElem?_filter_eq_some {p : α → β → Bool} {k : α} {b : β} :
    (m.filter p)[k]? = some b ↔ m[k]? = some b ∧ p k b = true := by
  simp

theorem getElem?_filter_keys (m : ExtTreeMap α β cmp)
    (p : α → Bool) (k : α) : (m.filter fun k _ => p k)[k]? = if p k then m[k]? else none := by
  refine Option.ext fun b => ?_
  rw [getElem?_filter_eq_some]
  split
  next h => exact and_iff_left h
  next h => simp [h]

end Build

section Values

variable {α β : Type} {cmp : α → α → Ordering} [TransCmp cmp] {P : β → Prop}
  {m : ExtTreeMap α β cmp}

/-- Every value in the map has the property. -/
def Every (P : β → Prop) (m : ExtTreeMap α β cmp) : Prop :=
  ∀ (k : α) b, m[k]? = some b → P b

theorem Every.insert (h : Every P m) (k : α) {b : β} (hb : P b) : Every P (m.insert k b) := by
  intro k' b' hb'
  rw [ExtTreeMap.getElem?_insert] at hb'
  split at hb'
  · cases hb'
    exact hb
  · exact h k' b' hb'

theorem Every.erase (h : Every P m) (k : α) : Every P (m.erase k) := by
  intro k' b' hb'
  rw [getElem?_erase] at hb'
  split at hb'
  · cases hb'
  · exact h k' b' hb'

end Values

section Update

variable {α β : Type} {cmp : α → α → Ordering} [TransCmp cmp] [LawfulEqCmp cmp]
  [DecidableEq α] {m : ExtTreeMap α β cmp} {k : α}

theorem insert_eq_modify {b : β} (h : m[k]? = some b) (f : β → β) :
    m.insert k (f b) = m.modify k f := by
  apply ExtTreeMap.ext_getElem?
  intro other
  rw [ExtTreeMap.getElem?_insert, ExtTreeMap.getElem?_modify]
  by_cases ho : k = other
  · simp [h]
  · simp [ho]

theorem insert_insert (m : ExtTreeMap α β cmp) (k : α) (b b' : β) :
    (m.insert k b).insert k b' = m.insert k b' := by
  apply ExtTreeMap.ext_getElem?
  intro other
  by_cases ho : k = other <;> simp [ExtTreeMap.getElem?_insert, ho]

theorem modify_eq_self (h : m[k]? = none) (f : β → β) : m.modify k f = m := by
  apply ExtTreeMap.ext_getElem?
  intro other
  rw [ExtTreeMap.getElem?_modify]
  by_cases ho : k = other
  · subst ho
    simp [h]
  · simp [ho]

theorem erase_eq_self (h : m[k]? = none) : m.erase k = m := by
  apply ExtTreeMap.ext_getElem?
  intro other
  rw [getElem?_erase]
  by_cases ho : k = other
  · subst ho
    simp [h]
  · simp [ho]

theorem modify_congr {b : β} (h : m[k]? = some b) {f g : β → β} (hfg : f b = g b) :
    m.modify k f = m.modify k g := by
  rw [← insert_eq_modify h, ← insert_eq_modify h, hfg]

variable (m k) in
theorem modify_modify (f g : β → β) : (m.modify k f).modify k g = m.modify k (g ∘ f) := by
  apply ExtTreeMap.ext_getElem?
  intro other
  by_cases ho : k = other
  · subst ho
    simp
  · simp [ExtTreeMap.getElem?_modify, ho]

end Update

section Map

variable {α β γ : Type} {cmp : α → α → Ordering} [TransCmp cmp] [LawfulEqCmp cmp]
  [DecidableEq α] (m : ExtTreeMap α β cmp) (k : α) (f : β → γ)

theorem map_insert (b : β) :
    (m.insert k b).map (fun _ b => f b) = (m.map fun _ b => f b).insert k (f b) := by
  apply ExtTreeMap.ext_getElem?
  intro other
  by_cases ho : k = other <;> simp [ExtTreeMap.getElem?_insert, ho]

theorem map_erase : (m.erase k).map (fun _ b => f b) = (m.map fun _ b => f b).erase k := by
  apply ExtTreeMap.ext_getElem?
  intro other
  by_cases ho : k = other <;> simp [getElem?_erase, ho]

theorem map_modify {g : β → β} {g' : γ → γ} (h : ∀ b, f (g b) = g' (f b)) :
    (m.modify k g).map (fun _ b => f b) = (m.map fun _ b => f b).modify k g' := by
  apply ExtTreeMap.ext_getElem?
  intro other
  by_cases ho : k = other
  · subst ho
    have hcomp : (fun b => f b) ∘ g = g' ∘ fun b => f b := funext h
    simp [hcomp]
  · simp [ExtTreeMap.getElem?_modify, ho]

end Map

end LatLng.Lib
