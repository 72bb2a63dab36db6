import Mathlib

/-! Sorting a list only as far as its first elements are needed. The two operations on slices are
known by what their documentation promises. -/

namespace LatLng.Lib

open List

variable {α : Type}

structure TotalOn (cmp : α → α → Ordering) (l : List α) : Prop where
  swap : ∀ a ∈ l, ∀ b ∈ l, cmp b a = (cmp a b).swap
  trans : ∀ a ∈ l, ∀ b ∈ l, ∀ c ∈ l,
    (cmp a b).isLE = true → (cmp b c).isLE = true → (cmp a c).isLE = true

structure StrictOn (cmp : α → α → Ordering) (l : List α) : Prop extends TotalOn cmp l where
  separates : ∀ a ∈ l, ∀ b ∈ l, cmp a b = .eq → a = b

def Sorted (cmp : α → α → Ordering) (l : List α) : Prop :=
  l.Pairwise fun a b => (cmp a b).isLE = true

/-- What the standard library promises of sorting a slice and of selecting an element: the
selected element and everything before it is at most everything after it. -/
structure SliceSort (α : Type) where
  sortBy : (α → α → Ordering) → List α → List α
  selectNth : (α → α → Ordering) → Nat → List α → List α
  sortBy_perm : ∀ {cmp l}, TotalOn cmp l → (sortBy cmp l).Perm l
  sortBy_sorted : ∀ {cmp l}, TotalOn cmp l → Sorted cmp (sortBy cmp l)
  selectNth_perm : ∀ {cmp n l}, TotalOn cmp l → n < l.length → (selectNth cmp n l).Perm l
  selectNth_le : ∀ {cmp n l}, TotalOn cmp l → n < l.length →
    ∀ a ∈ (selectNth cmp n l).take (n + 1), ∀ b ∈ (selectNth cmp n l).drop (n + 1),
      (cmp a b).isLE = true

section Order

variable {cmp : α → α → Ordering} {l l' : List α}

theorem TotalOn.mono (h : TotalOn cmp l) (hsub : ∀ a ∈ l', a ∈ l) : TotalOn cmp l' where
  swap := fun a ha b hb => h.swap a (hsub a ha) b (hsub b hb)
  trans := fun a ha b hb c hc => h.trans a (hsub a ha) b (hsub b hb) c (hsub c hc)

theorem StrictOn.mono (h : StrictOn cmp l) (hsub : ∀ a ∈ l', a ∈ l) : StrictOn cmp l' where
  toTotalOn := h.toTotalOn.mono hsub
  separates := fun a ha b hb => h.separates a (hsub a ha) b (hsub b hb)

theorem TotalOn.total (h : TotalOn cmp l) {a b : α} (ha : a ∈ l) (hb : b ∈ l) :
    ((cmp a b).isLE || (cmp b a).isLE) = true := by
  rw [h.swap a ha b hb]
  cases cmp a b <;> rfl

theorem StrictOn.antisymm (h : StrictOn cmp l) {a b : α} (ha : a ∈ l) (hb : b ∈ l)
    (hab : (cmp a b).isLE) (hba : (cmp b a).isLE) : a = b := by
  apply h.separates a ha b hb
  rw [h.swap a ha b hb] at hba
  cases hcmp : cmp a b with
  | lt =>
    rw [hcmp] at hba
    cases hba
  | eq => rfl
  | gt =>
    rw [hcmp] at hab
    cases hab

theorem TotalOn.sorted_mergeSort (h : TotalOn cmp l) :
    Sorted cmp (l.mergeSort fun a b => (cmp a b).isLE) := by
  have hmap : (l.attach.mergeSort fun a b => (cmp a.1 b.1).isLE).map Subtype.val =
      (l.attach.map Subtype.val).mergeSort fun a b => (cmp a b).isLE :=
    map_mergeSort fun _ _ _ _ => rfl
  rw [attach_map_subtype_val] at hmap
  rw [← hmap]
  unfold Sorted
  rw [pairwise_map]
  exact pairwise_mergeSort
    (fun a b c hab hbc => h.trans a.1 a.2 b.1 b.2 c.1 c.2 hab hbc)
    (fun a b => h.total a.2 b.2) l.attach

theorem StrictOn.eq_mergeSort (h : StrictOn cmp l) (hperm : l'.Perm l) (hsorted : Sorted cmp l') :
    l' = l.mergeSort fun a b => (cmp a b).isLE := by
  have hsort := mergeSort_perm l fun a b => (cmp a b).isLE
  refine List.Perm.eq_of_pairwise ?_ hsorted h.toTotalOn.sorted_mergeSort (hperm.trans hsort.symm)
  intro a b ha hb hab hba
  exact h.antisymm (hperm.mem_iff.1 ha) (hsort.mem_iff.1 hb) hab hba

theorem StrictOn.mergeSort_congr (h : StrictOn cmp l) (hperm : l'.Perm l) :
    (l'.mergeSort fun a b => (cmp a b).isLE) = l.mergeSort fun a b => (cmp a b).isLE := by
  have h' : TotalOn cmp l' := h.toTotalOn.mono fun a ha => hperm.mem_iff.1 ha
  exact h.eq_mergeSort ((mergeSort_perm _ _).trans hperm) h'.sorted_mergeSort

theorem StrictOn.lt_mergeSort (h : StrictOn cmp l) (hnodup : l.Nodup) :
    (l.mergeSort fun a b => (cmp a b).isLE).Pairwise fun a b => cmp a b = .lt := by
  have hsort := mergeSort_perm l fun a b => (cmp a b).isLE
  have hdifferent : (l.mergeSort fun a b => (cmp a b).isLE).Pairwise (· ≠ ·) :=
    hsort.nodup_iff.2 hnodup
  refine (h.toTotalOn.sorted_mergeSort.and hdifferent).imp_of_mem ?_
  rintro a b ha hb ⟨hle, hne⟩
  have hneq : cmp a b ≠ .eq := fun heq =>
    hne (h.separates a (hsort.mem_iff.1 ha) b (hsort.mem_iff.1 hb) heq)
  cases hcmp : cmp a b with
  | lt => rfl
  | eq => exact absurd hcmp hneq
  | gt =>
    rw [hcmp] at hle
    cases hle

end Order

namespace SliceSort

variable (s : SliceSort α) {cmp : α → α → Ordering} {l : List α}

def sortPrefix (cmp : α → α → Ordering) (n : Nat) (l : List α) : List α :=
  let selected := s.selectNth cmp (n - 1) l
  s.sortBy cmp (selected.take n) ++ selected.drop n

theorem sortBy_eq (h : StrictOn cmp l) : s.sortBy cmp l = l.mergeSort fun a b => (cmp a b).isLE :=
  h.eq_mergeSort (s.sortBy_perm h.toTotalOn) (s.sortBy_sorted h.toTotalOn)

theorem sortPrefix_perm (h : TotalOn cmp l) {n : Nat} (hpos : 0 < n) (hn : n ≤ l.length) :
    (s.sortPrefix cmp n l).Perm l := by
  have hperm := s.selectNth_perm h (show n - 1 < l.length by omega)
  have htake : TotalOn cmp ((s.selectNth cmp (n - 1) l).take n) :=
    h.mono fun a ha => hperm.mem_iff.1 (mem_of_mem_take ha)
  have happend := (s.sortBy_perm htake).append_right ((s.selectNth cmp (n - 1) l).drop n)
  rw [take_append_drop] at happend
  exact happend.trans hperm

theorem take_sortPrefix (h : StrictOn cmp l) {n : Nat} (hpos : 0 < n) (hn : n ≤ l.length) :
    (s.sortPrefix cmp n l).take n = (l.mergeSort fun a b => (cmp a b).isLE).take n := by
  have hlt : n - 1 < l.length := by omega
  have hsucc : n - 1 + 1 = n := by omega
  have hperm := s.selectNth_perm h.toTotalOn hlt
  have hle := s.selectNth_le h.toTotalOn hlt
  rw [hsucc] at hle
  unfold sortPrefix
  generalize s.selectNth cmp (n - 1) l = selected at hperm hle ⊢
  have htake : TotalOn cmp (selected.take n) :=
    h.toTotalOn.mono fun a ha => hperm.mem_iff.1 (mem_of_mem_take ha)
  have hdrop : TotalOn cmp (selected.drop n) :=
    h.toTotalOn.mono fun a ha => hperm.mem_iff.1 (mem_of_mem_drop ha)
  have hfirst := s.sortBy_perm htake
  have hrest := mergeSort_perm (selected.drop n) fun a b => (cmp a b).isLE
  have hlength : (s.sortBy cmp (selected.take n)).length = n := by
    rw [hfirst.length_eq, length_take, hperm.length_eq]
    omega
  -- with the rest sorted as well, the two parts are the sorted list
  have hwhole : s.sortBy cmp (selected.take n) ++
      ((selected.drop n).mergeSort fun a b => (cmp a b).isLE) =
        l.mergeSort fun a b => (cmp a b).isLE := by
    apply h.eq_mergeSort
    · have happend := hfirst.append hrest
      rw [take_append_drop] at happend
      exact happend.trans hperm
    · refine pairwise_append.2 ⟨s.sortBy_sorted htake, hdrop.sorted_mergeSort, ?_⟩
      intro a ha b hb
      exact hle a (hfirst.mem_iff.1 ha) b (hrest.mem_iff.1 hb)
  rw [← hwhole, take_left' hlength, take_left' hlength]

def whole : SliceSort α where
  sortBy := fun cmp l => l.mergeSort fun a b => (cmp a b).isLE
  selectNth := fun cmp _ l => l.mergeSort fun a b => (cmp a b).isLE
  sortBy_perm := fun _ => mergeSort_perm _ _
  sortBy_sorted := fun h => h.sorted_mergeSort
  selectNth_perm := fun _ _ => mergeSort_perm _ _
  selectNth_le := by
    intro cmp n l h _
    have hsorted := h.sorted_mergeSort
    rw [← take_append_drop (n + 1) (l.mergeSort fun a b => (cmp a b).isLE)] at hsorted
    exact (pairwise_append.1 hsorted).2.2

end SliceSort

theorem takeWhile_eq_filter {R : α → α → Prop} {p : α → Bool} {l : List α} (h : l.Pairwise R)
    (hp : ∀ a b, R a b → p b → p a = true) : l.takeWhile p = l.filter p := by
  induction h with
  | nil => rfl
  | @cons a l hfirst _ ih =>
    by_cases ha : p a = true
    · rw [takeWhile_cons_of_pos ha, filter_cons_of_pos ha, ih]
    · have hnone : l.filter p = [] := filter_eq_nil_iff.2
        fun b hb hpb => ha (hp a b (hfirst b hb) hpb)
      rw [takeWhile_cons_of_neg ha, filter_cons_of_neg ha, hnone]

end LatLng.Lib
