import Mathlib

/-! Computations that may fail, one by one and in sequence. -/

namespace LatLng.Lib

variable {ε α β : Type}

theorem bind_eq_ok {x : Except ε α} {f : α → Except ε β} {b : β} :
    x.bind f = .ok b ↔ ∃ a, x = .ok a ∧ f a = .ok b := by
  cases x with
  | error e => exact ⟨nofun, fun ⟨_, h, _⟩ => nomatch h⟩
  | ok a => exact ⟨fun h => ⟨a, rfl, h⟩, fun ⟨_, ha, h⟩ => by cases ha; exact h⟩

variable {as : List α}

theorem forM_eq_ok {f : α → Except ε Unit} : as.forM f = .ok () ↔ ∀ a ∈ as, f a = .ok () := by
  induction as with
  | nil => exact iff_of_true rfl (by simp)
  | cons a as ih =>
    rw [List.forall_mem_cons, ← ih]
    change (f a).bind (fun _ => as.forM f) = .ok () ↔ _
    rw [bind_eq_ok]
    exact ⟨fun ⟨_, ha, hrest⟩ => ⟨ha, hrest⟩, fun ⟨ha, hrest⟩ => ⟨(), ha, hrest⟩⟩

theorem mapM_ok {f : α → Except ε β} {g : α → β} (h : ∀ a ∈ as, f a = .ok (g a)) :
    as.mapM f = .ok (as.map g) := by
  induction as with
  | nil => rfl
  | cons a as ih =>
    obtain ⟨ha, hrest⟩ := List.forall_mem_cons.1 h
    rw [List.mapM_cons, ha, ih hrest]
    rfl

/-- A loop over what is found under the elements, which stops at the `n`th that is wanted. -/
theorem visit_eq_take {γ : Type} {find : α → Option γ} {wanted : γ → Bool} {item : γ → β}
    (visit : Nat → List α → Except ε (List β)) (hzero : ∀ as, visit 0 as = .ok [])
    (hnil : ∀ n, visit n [] = .ok [])
    (hcons : ∀ n, ∀ a ∈ as, ∀ rest, visit (n + 1) (a :: rest) = match (find a).filter wanted with
      | none => visit (n + 1) rest
      | some c => (visit n rest).map (item c :: ·)) (n : Nat) :
    visit n as = .ok ((((as.filterMap find).filter wanted).take n).map item) := by
  induction as generalizing n with
  | nil => simp [hnil]
  | cons a as ih =>
    cases n with
    | zero => simp [hzero]
    | succ n =>
      have hrest := ih fun n b hb => hcons n b (List.mem_cons_of_mem a hb)
      rw [hcons n a List.mem_cons_self, List.filterMap_cons]
      cases find a with
      | none => exact hrest (n + 1)
      | some c =>
        cases hc : wanted c with
        | false => simp [Option.filter, hc, hrest (n + 1)]
        | true => simp [Option.filter, hc, hrest n, Except.map]

theorem exists_mapM {f : α → Option β} (h : ∀ a ∈ as, ∃ b, f a = some b) :
    ∃ bs, as.mapM f = some bs ∧ ∀ b, b ∈ bs ↔ ∃ a ∈ as, f a = some b := by
  induction as with
  | nil => exact ⟨[], rfl, by simp⟩
  | cons a as ih =>
    obtain ⟨⟨b, hb⟩, hrest⟩ := List.forall_mem_cons.1 h
    obtain ⟨bs, hbs, hmem⟩ := ih hrest
    refine ⟨b :: bs, by simp [List.mapM_cons, hb, hbs], fun b' => ?_⟩
    simp [hb, hmem, eq_comm]

theorem mapM_eq_none {f : α → Option β} {a : α} (ha : a ∈ as) (hf : f a = none) :
    as.mapM f = none := by
  induction as with
  | nil => cases ha
  | cons first as ih =>
    rw [List.mapM_cons]
    rcases List.mem_cons.1 ha with rfl | ha
    · rw [hf]
      rfl
    · rw [ih ha]
      cases f first <;> rfl

end LatLng.Lib
