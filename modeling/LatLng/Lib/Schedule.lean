import Mathlib

/-! Interleavings: runs of a system whose actors take partial steps one at a time, and the
actions that actors still have to carry out. -/

namespace LatLng.Lib

open List

section Runs

variable {α σ : Type} (step : α → σ → Option σ)

def runSteps : List α → σ → Option σ
  | [], s => some s
  | a :: as, s => (step a s).bind (runSteps as)

def StepsMeet (cond : α → σ → Prop) : List α → σ → Prop
  | [], _ => True
  | a :: as, s => cond a s ∧ ∀ s', step a s = some s' → StepsMeet cond as s'

variable {step} {cond : α → σ → Prop}

theorem StepsMeet.cons {a : α} {as : List α} {s s' : σ} (ha : cond a s) (hs : step a s = some s')
    (h : StepsMeet step cond as s') : StepsMeet step cond (a :: as) s := by
  refine ⟨ha, fun t ht => ?_⟩
  cases hs.symm.trans ht
  exact h

theorem runSteps_append (as bs : List α) (s : σ) :
    runSteps step (as ++ bs) s = (runSteps step as s).bind (runSteps step bs) := by
  induction as generalizing s with
  | nil => rfl
  | cons a as ih =>
    rw [cons_append, runSteps, runSteps, Option.bind_assoc]
    exact congrArg _ (funext ih)

theorem stepsMeet_of_forall (h : ∀ a s, cond a s) (as : List α) (s : σ) :
    StepsMeet step cond as s := by
  induction as generalizing s with
  | nil => trivial
  | cons a as ih => exact ⟨h a s, fun s' _ => ih s'⟩

variable {as : List α} {s : σ}

theorem StepsMeet.mem (h : StepsMeet step cond as s) {all : List α}
    (hsub : ∀ a ∈ as, a ∈ all) : StepsMeet step (fun a s => a ∈ all ∧ cond a s) as s := by
  induction as generalizing s with
  | nil => trivial
  | cons a as ih =>
    obtain ⟨ha, hrest⟩ := forall_mem_cons.1 hsub
    exact ⟨⟨ha, h.1⟩, fun s' hs' => ih (h.2 s' hs') hrest⟩

theorem runSteps_invariant {inv : σ → Prop}
    (hstep : ∀ a s s', inv s → cond a s → step a s = some s' → inv s')
    {as : List α} {s s' : σ} (h : inv s) (hmeet : StepsMeet step cond as s)
    (hrun : runSteps step as s = some s') : inv s' := by
  induction as generalizing s with
  | nil =>
    cases hrun
    exact h
  | cons a as ih =>
    obtain ⟨t, ht, hrest⟩ := Option.bind_eq_some_iff.1 hrun
    exact ih (hstep a s t h hmeet.1 ht) (hmeet.2 t ht) hrest

theorem length_le_of_runSteps {inv : σ → Prop} {measure : σ → Nat}
    (hstep : ∀ a s s', inv s → cond a s → step a s = some s' → inv s' ∧ measure s' < measure s)
    {s' : σ} (h : inv s) (hmeet : StepsMeet step cond as s)
    (hrun : runSteps step as s = some s') : as.length + measure s' ≤ measure s := by
  induction as generalizing s with
  | nil =>
    cases hrun
    exact Nat.le_of_eq (Nat.zero_add _)
  | cons a as ih =>
    obtain ⟨t, ht, hrest⟩ := Option.bind_eq_some_iff.1 hrun
    obtain ⟨hinv, hlt⟩ := hstep a s t h hmeet.1 ht
    have hle := ih hinv (hmeet.2 t ht) hrest
    rw [length_cons]
    omega

variable (step) in
def checkSteps (check : α → σ → Bool) : List α → σ → Bool
  | [], _ => true
  | a :: as, s => check a s && (step a s).all (checkSteps check as)

theorem stepsMeet_of_checkSteps (check : α → σ → Bool) (hcheck : ∀ a s, check a s → cond a s)
    (h : checkSteps step check as s) : StepsMeet step cond as s := by
  induction as generalizing s with
  | nil => trivial
  | cons a as ih =>
    obtain ⟨hhere, hrest⟩ := (Bool.and_eq_true _ _).mp h
    refine ⟨hcheck a s hhere, fun s' hs' => ih ?_⟩
    rw [hs'] at hrest
    exact hrest

end Runs

section Pending

variable {ι β : Type}

def settle (actions : ι → β → β) (actors : List ι) (b : β) : β :=
  actors.foldl (fun b i => actions i b) b

variable {actions : ι → β → β} {actors : List ι}

theorem settle_id (h : ∀ i ∈ actors, actions i = id) (b : β) : settle actions actors b = b := by
  induction actors with
  | nil => rfl
  | cons i actors ih =>
    rw [settle, foldl_cons, h i mem_cons_self]
    exact ih fun j hj => h j (mem_cons_of_mem _ hj)

theorem settle_congr {actions' : ι → β → β} (h : ∀ i ∈ actors, actions i = actions' i) (b : β) :
    settle actions actors b = settle actions' actors b := by
  induction actors generalizing b with
  | nil => rfl
  | cons i actors ih =>
    rw [settle, settle, foldl_cons, foldl_cons, h i mem_cons_self]
    exact ih (fun j hj => h j (mem_cons_of_mem _ hj)) _

theorem settle_keep {γ : Type} {f : β → γ}
    (h : ∀ i ∈ actors, ∀ b, f (actions i b) = f b) (b : β) : f (settle actions actors b) = f b := by
  induction actors generalizing b with
  | nil => rfl
  | cons i actors ih =>
    exact (ih (fun j hj => h j (mem_cons_of_mem _ hj)) _).trans (h i mem_cons_self b)

theorem settle_comm {g : β → β}
    (hcomm : ∀ i ∈ actors, ∀ b, actions i (g b) = g (actions i b)) (b : β) :
    settle actions actors (g b) = g (settle actions actors b) := by
  induction actors generalizing b with
  | nil => rfl
  | cons i actors ih =>
    rw [settle, settle, foldl_cons, foldl_cons, hcomm i mem_cons_self]
    exact ih (fun j hj => hcomm j (mem_cons_of_mem _ hj)) _

theorem settle_update [DecidableEq ι]
    (hnodup : actors.Nodup) {i : ι} (hi : i ∈ actors) (hidle : actions i = id) {g : β → β}
    (hcomm : ∀ j ∈ actors, j ≠ i → ∀ b, actions j (g b) = g (actions j b)) (b : β) :
    settle (Function.update actions i g) actors b = g (settle actions actors b) := by
  obtain ⟨before, after, rfl⟩ := append_of_mem hi
  have hne : ∀ j ∈ before ++ after, j ≠ i := by
    rintro j hj rfl
    exact (nodup_middle.1 hnodup).notMem hj
  have hsame : ∀ j ∈ before ++ after, Function.update actions i g j = actions j :=
    fun j hj => Function.update_of_ne (hne j hj) _ _
  have hbefore := settle_congr (fun j hj => hsame j (mem_append_left _ hj)) b
  have hafter := fun b => settle_congr (fun j hj => hsame j (mem_append_right before hj)) b
  have hlast : ∀ b, settle actions after (g b) = g (settle actions after b) :=
    settle_comm fun j hj => hcomm j (mem_append_right _ (mem_cons_of_mem _ hj))
      (hne j (mem_append_right _ hj))
  simp only [settle, foldl_append, foldl_cons, Function.update_self, hidle, id] at *
  rw [hbefore, hafter, hlast]

end Pending

end LatLng.Lib
