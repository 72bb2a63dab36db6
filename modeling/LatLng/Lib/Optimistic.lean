import Mathlib

/-! Optimistic concurrency. A call reads the current state and decides from what it has read: it
answers, or it tries to replace the state, which succeeds only while the version is still the one
it has read. Every run is equivalent to one in which the calls are made one after the other. -/

namespace LatLng.Lib.Optimistic

open List

variable {ι σ κ α : Type}

/-- What a call may do in a state, given an input. A replaced state has a larger version. -/
structure Protocol (ι σ κ α : Type) where
  answers : ι → κ → σ → α → Prop
  commits : ι → κ → σ → σ → α → Prop
  version : σ → Nat
  version_lt : ∀ {i k s t a}, commits i k s t a → version s < version t

inductive Phase (σ κ α : Type) where
  | idle
  | read (s : σ)
  | planned (s : σ) (input : κ)
  | done (a : α)

structure State (ι σ κ α : Type) where
  current : σ
  phase : ι → Phase σ κ α

def State.start (s : σ) : State ι σ κ α := { current := s, phase := fun _ => .idle }

variable (P : Protocol ι σ κ α)

inductive Serial : σ → List (ι × κ × α) → σ → Prop
  | nil (s : σ) : Serial s [] s
  | answer {i : ι} {k : κ} {a : α} {s t : σ} {calls : List (ι × κ × α)} (h : P.answers i k s a)
    (hrest : Serial s calls t) : Serial s ((i, k, a) :: calls) t
  | commit {i : ι} {k : κ} {a : α} {s s' t : σ} {calls : List (ι × κ × α)}
    (h : P.commits i k s s' a) (hrest : Serial s' calls t) : Serial s ((i, k, a) :: calls) t

def Precedes (actions : List (ι × κ)) (i j : ι) : Prop :=
  ∃ before after, actions = before ++ after ∧ (∀ a ∈ after, a.1 ≠ i) ∧ ∀ a ∈ before, a.1 ≠ j

section Runs

variable [DecidableEq ι]

def State.set (s : State ι σ κ α) (i : ι) (current : σ) (phase : Phase σ κ α) : State ι σ κ α :=
  { current, phase := Function.update s.phase i phase }

@[simp] theorem State.phase_set_self (s : State ι σ κ α) (i : ι) (current : σ)
    (phase : Phase σ κ α) : (s.set i current phase).phase i = phase := Function.update_self _ _ _

theorem State.phase_set_of_ne (s : State ι σ κ α) {i j : ι} (h : j ≠ i) (current : σ)
    (phase : Phase σ κ α) : (s.set i current phase).phase j = s.phase j :=
  Function.update_of_ne h _ _

theorem State.set_eq_self (s : State ι σ κ α) {i : ι} {phase : Phase σ κ α}
    (h : s.phase i = phase) : s.set i s.current phase = s := by
  rw [set, ← h, Function.update_eq_self]

inductive Step (i : ι) (k : κ) (s : State ι σ κ α) : State ι σ κ α → Prop
  | silent : Step i k s s
  | read (h : s.phase i = .idle) : Step i k s (s.set i s.current (.read s.current))
  | answer {t : σ} {a : α} (h : s.phase i = .read t) (ha : P.answers i k t a) :
    Step i k s (s.set i s.current (.done a))
  | plan {t : σ} (h : s.phase i = .read t) : Step i k s (s.set i s.current (.planned t k))
  | retry {t : σ} {k' : κ} (h : s.phase i = .planned t k') : Step i k s (s.set i s.current .idle)
  | commit {t u : σ} {k' : κ} {a : α} (h : s.phase i = .planned t k')
    (hversion : P.version s.current = P.version t) (hc : P.commits i k' t u a) :
    Step i k s (s.set i u (.done a))

inductive Run : List (ι × κ) → State ι σ κ α → State ι σ κ α → Prop
  | nil (s : State ι σ κ α) : Run [] s s
  | cons {i : ι} {k : κ} {actions : List (ι × κ)} {s t u : State ι σ κ α}
    (h : Step P i k s t) (hrest : Run actions t u) : Run ((i, k) :: actions) s u

end Runs

/-! ### Histories

A history lists the calls that have read the current state or are done, each with the time of the
action by which it takes its place. A call that has only read has no effect and may still leave. -/

structure Item (ι κ α : Type) where
  time : Nat
  call : ι
  outcome : Option (κ × α)

/-- The calls of the history lead from one state to another and are in the phases it says. -/
inductive Explains (phase : ι → Phase σ κ α) : σ → List (Item ι κ α) → σ → Prop
  | nil (s : σ) : Explains phase s [] s
  | reading {s t : σ} {time : Nat} {i : ι} {items : List (Item ι κ α)} (h : phase i = .read s)
    (hrest : Explains phase s items t) : Explains phase s (⟨time, i, none⟩ :: items) t
  | answered {s t : σ} {time : Nat} {i : ι} {k : κ} {a : α} {items : List (Item ι κ α)}
    (h : phase i = .done a) (ha : P.answers i k s a) (hrest : Explains phase s items t) :
    Explains phase s (⟨time, i, some (k, a)⟩ :: items) t
  | committed {s s' t : σ} {time : Nat} {i : ι} {k : κ} {a : α} {items : List (Item ι κ α)}
    (h : phase i = .done a) (hc : P.commits i k s s' a) (hrest : Explains phase s' items t) :
    Explains phase s (⟨time, i, some (k, a)⟩ :: items) t

variable {P} {phase phase' : ι → Phase σ κ α}

namespace Explains

variable {xs ys : List (Item ι κ α)}

theorem append {s t u : σ} (h : Explains P phase s xs t)
    (h' : Explains P phase t ys u) : Explains P phase s (xs ++ ys) u := by
  induction h with
  | nil => exact h'
  | reading h _ ih => exact .reading h (ih h')
  | answered h ha _ ih => exact .answered h ha (ih h')
  | committed h hc _ ih => exact .committed h hc (ih h')

variable {s : σ}

theorem split {u : σ} (h : Explains P phase s (xs ++ ys) u) :
    ∃ t, Explains P phase s xs t ∧ Explains P phase t ys u := by
  induction xs generalizing s with
  | nil => exact ⟨s, .nil s, h⟩
  | cons x xs ih =>
    cases h with
    | reading h hrest =>
      obtain ⟨t, hxs, hys⟩ := ih hrest
      exact ⟨t, .reading h hxs, hys⟩
    | answered h ha hrest =>
      obtain ⟨t, hxs, hys⟩ := ih hrest
      exact ⟨t, .answered h ha hxs, hys⟩
    | committed h hc hrest =>
      obtain ⟨t, hxs, hys⟩ := ih hrest
      exact ⟨t, .committed h hc hxs, hys⟩

variable {t : σ} {items : List (Item ι κ α)}

theorem congr (h : Explains P phase s items t)
    (hsame : ∀ e ∈ items, phase' e.call = phase e.call) : Explains P phase' s items t := by
  induction h with
  | nil => exact .nil _
  | reading h _ ih =>
    obtain ⟨hhead, htail⟩ := forall_mem_cons.1 hsame
    exact .reading (hhead.trans h) (ih htail)
  | answered h ha _ ih =>
    obtain ⟨hhead, htail⟩ := forall_mem_cons.1 hsame
    exact .answered (hhead.trans h) ha (ih htail)
  | committed h hc _ ih =>
    obtain ⟨hhead, htail⟩ := forall_mem_cons.1 hsame
    exact .committed (hhead.trans h) hc (ih htail)

theorem phase_of_mem (h : Explains P phase s items t) {e : Item ι κ α} (he : e ∈ items) :
    (e.outcome = none ∧ ∃ u, phase e.call = .read u) ∨
      ∃ k a, e.outcome = some (k, a) ∧ phase e.call = .done a := by
  induction h with
  | nil => cases he
  | reading h _ ih =>
    rcases mem_cons.1 he with rfl | he
    · exact .inl ⟨rfl, _, h⟩
    · exact ih he
  | answered h _ _ ih | committed h _ _ ih =>
    rcases mem_cons.1 he with rfl | he
    · exact .inr ⟨_, _, rfl, h⟩
    · exact ih he

theorem serial (h : Explains P phase s items t) :
    Serial P s (items.filterMap fun e => e.outcome.map fun o => (e.call, o)) t := by
  induction h with
  | nil => exact .nil _
  | reading _ _ ih => exact ih
  | answered _ ha _ ih => exact .answer ha ih
  | committed _ hc _ ih => exact .commit hc ih

end Explains

/-! ### The invariant of a run -/

def Item.place (e : Item ι κ α) : Nat × ι := (e.time, e.call)

structure Placed (actions : List (ι × κ)) (places : List (Nat × ι)) : Prop where
  sorted : places.Pairwise fun x y => x.1 < y.1
  nodup : (places.map Prod.snd).Nodup
  times : ∀ x ∈ places, ∃ k, actions[x.1]? = some (x.2, k)

namespace Placed

variable {actions : List (ι × κ)} {places places' : List (Nat × ι)} (h : Placed actions places)

include h

theorem sublist (hsub : places'.Sublist places) : Placed actions places' where
  sorted := h.sorted.sublist hsub
  nodup := h.nodup.sublist (hsub.map _)
  times := fun x hx => h.times x (hsub.subset hx)

theorem time_lt {x : Nat × ι} (hx : x ∈ places) : x.1 < actions.length := by
  obtain ⟨k, hk⟩ := h.times x hx
  exact (List.getElem?_eq_some_iff.1 hk).1

theorem later (action : ι × κ) : Placed (actions ++ [action]) places where
  sorted := h.sorted
  nodup := h.nodup
  times := by
    intro x hx
    obtain ⟨k, hk⟩ := h.times x hx
    exact ⟨k, by rw [getElem?_append_left (h.time_lt hx), hk]⟩

theorem concat {i : ι} (k : κ) (hi : i ∉ places.map Prod.snd) :
    Placed (actions ++ [(i, k)]) (places ++ [(actions.length, i)]) where
  sorted := by
    refine pairwise_append.2 ⟨h.sorted, pairwise_singleton _ _, fun x hx y hy => ?_⟩
    cases mem_singleton.1 hy
    exact h.time_lt hx
  nodup := by
    rw [map_append, map_cons, map_nil]
    refine nodup_append.2 ⟨h.nodup, nodup_singleton i, ?_⟩
    rintro j hj j' hj' rfl
    cases mem_singleton.1 hj'
    exact hi hj
  times := by
    intro x hx
    rcases mem_append.1 hx with hx | hx
    · exact (h.later (i, k)).times x hx
    · cases mem_singleton.1 hx
      exact ⟨k, getElem?_concat_length⟩

theorem sublist_of_precedes {i j : ι} (hi : i ∈ places.map Prod.snd)
    (hj : j ∈ places.map Prod.snd) (hij : Precedes actions i j) :
    [i, j].Sublist (places.map Prod.snd) := by
  obtain ⟨before, after, rfl, hafter, hbefore⟩ := hij
  obtain ⟨⟨ti, i'⟩, hxi, rfl⟩ := mem_map.1 hi
  obtain ⟨⟨tj, j'⟩, hxj, rfl⟩ := mem_map.1 hj
  -- the action of `i` lies in the first part, the one of `j` in the second
  have hti : ti < before.length := by
    by_contra hge
    obtain ⟨k, hk⟩ := h.times _ hxi
    rw [getElem?_append_right (Nat.le_of_not_lt hge)] at hk
    exact hafter _ (mem_of_getElem? hk) rfl
  have htj : before.length ≤ tj := by
    by_contra hlt
    obtain ⟨k, hk⟩ := h.times _ hxj
    rw [getElem?_append_left (Nat.lt_of_not_le hlt)] at hk
    exact hbefore _ (mem_of_getElem? hk) rfl
  have hpair : [(ti, i'), (tj, j')].Sublist places := by
    obtain ⟨xs, ys, rfl⟩ := append_of_mem hxi
    have hsorted := h.sorted
    rw [pairwise_append, pairwise_cons] at hsorted
    rcases mem_append.1 hxj with hxj | hxj
    · have hlt := hsorted.2.2 _ hxj _ mem_cons_self
      omega
    · rcases mem_cons.1 hxj with heq | hxj
      · cases heq
        omega
      · have hys : [(tj, j')].Sublist ys := singleton_sublist.2 hxj
        exact (hys.cons_cons (ti, i')).trans (sublist_append_right xs _)
  exact hpair.map Prod.snd

end Placed

variable (P) in
def Follows (t current : σ) : Prop := t = current ∨ P.version t < P.version current

theorem Follows.trans {s t u : σ} (h : Follows P s t) (h' : Follows P t u) : Follows P s u := by
  rcases h with rfl | h
  · exact h'
  · rcases h' with rfl | h'
    · exact .inr h
    · exact .inr (Nat.lt_trans h h')

variable (P) in
structure Inv (s₀ : σ) (actions : List (ι × κ)) (s : State ι σ κ α) (items : List (Item ι κ α)) :
    Prop where
  explains : Explains P s.phase s₀ items s.current
  placed : Placed actions (items.map Item.place)
  inputs : ∀ e ∈ items, ∀ o ∈ e.outcome, (e.call, o.1) ∈ actions
  present : ∀ i, (∃ t, s.phase i = .read t) ∨ (∃ a, s.phase i = .done a) → ∃ e ∈ items, e.call = i
  reading : ∀ i t, s.phase i = .read t → Follows P t s.current
  planned : ∀ i t k, s.phase i = .planned t k → (i, k) ∈ actions ∧ Follows P t s.current

namespace Inv

variable {s₀ : σ} {actions : List (ι × κ)} {s : State ι σ κ α} {items items' : List (Item ι κ α)}

theorem start (s : σ) : Inv P s ([] : List (ι × κ)) (.start s : State ι σ κ α) [] where
  explains := .nil s
  placed := ⟨List.Pairwise.nil, nodup_nil, fun _ hx => absurd hx not_mem_nil⟩
  inputs := fun _ he => absurd he not_mem_nil
  present := by
    rintro i (⟨t, ht⟩ | ⟨a, ha⟩)
    · cases ht
    · cases ha
  reading := nofun
  planned := nofun

variable (h : Inv P s₀ actions s items)

include h

theorem silent (action : ι × κ) : Inv P s₀ (actions ++ [action]) s items where
  explains := h.explains
  placed := h.placed.later action
  inputs := fun e he o ho => mem_append_left _ (h.inputs e he o ho)
  present := h.present
  reading := h.reading
  planned := by
    intro i t k hi
    obtain ⟨hmem, ht⟩ := h.planned i t k hi
    exact ⟨mem_append_left _ hmem, ht⟩

variable {i : ι}

theorem call_ne (hread : ∀ t, s.phase i ≠ .read t)
    (hdone : ∀ a, s.phase i ≠ .done a) : ∀ e ∈ items, e.call ≠ i := by
  rintro e he rfl
  rcases h.explains.phase_of_mem he with ⟨-, t, ht⟩ | ⟨k, a, -, ha⟩
  · exact hread t ht
  · exact hdone a ha

theorem reading_item {t : σ} (hi : s.phase i = .read t) :
    ∃ before time after, items = before ++ ⟨time, i, none⟩ :: after ∧
      (∀ e ∈ before ++ after, e.call ≠ i) ∧ Explains P s.phase s₀ before t ∧
      Explains P s.phase t after s.current := by
  obtain ⟨⟨time, j, outcome⟩, he, rfl⟩ := h.present i (.inl ⟨t, hi⟩)
  have houtcome : outcome = none := by
    rcases h.explains.phase_of_mem he with ⟨hnone, -⟩ | ⟨k, a, -, ha⟩
    · exact hnone
    · rw [hi] at ha
      cases ha
  subst houtcome
  obtain ⟨before, after, rfl⟩ := append_of_mem he
  obtain ⟨u, hbefore, hafter⟩ := h.explains.split
  cases hafter with
  | reading hu hrest =>
    cases hi.symm.trans hu
    refine ⟨before, time, after, rfl, ?_, hbefore, hrest⟩
    intro e he' hcall
    have hnodup := h.placed.nodup
    rw [map_map, map_append, map_cons, nodup_middle, ← map_append]
      at hnodup
    exact (nodup_cons.1 hnodup).1 (mem_map.2 ⟨e, he', hcall⟩)

variable [DecidableEq ι]

theorem update {k : κ} {current : σ} {phase : Phase σ κ α}
    (hexplains : Explains P (s.set i current phase).phase s₀ items' current)
    (hplaced : Placed (actions ++ [(i, k)]) (items'.map Item.place))
    (hinputs : ∀ e ∈ items', ∀ o ∈ e.outcome, (e.call, o.1) ∈ actions ++ [(i, k)])
    (hkept : ∀ e ∈ items, e.call ≠ i → ∃ e' ∈ items', e'.call = e.call)
    (hpresent : (∃ t, phase = .read t) ∨ (∃ a, phase = .done a) → ∃ e ∈ items', e.call = i)
    (hcurrent : Follows P s.current current) (hread : ∀ t, phase = .read t → Follows P t current)
    (hplanned : ∀ t k', phase = .planned t k' →
      (i, k') ∈ actions ++ [(i, k)] ∧ Follows P t current) :
    Inv P s₀ (actions ++ [(i, k)]) (s.set i current phase) items' := by
  refine ⟨hexplains, hplaced, hinputs, ?_, ?_, ?_⟩
  · intro j hj
    by_cases hji : j = i
    · rw [hji, State.phase_set_self] at hj
      exact hji ▸ hpresent hj
    · rw [s.phase_set_of_ne hji] at hj
      obtain ⟨e, he, rfl⟩ := h.present j hj
      exact hkept e he hji
  · intro j t hj
    by_cases hji : j = i
    · rw [hji, State.phase_set_self] at hj
      exact hread t hj
    · rw [s.phase_set_of_ne hji] at hj
      exact (h.reading j t hj).trans hcurrent
  · intro j t k' hj
    by_cases hji : j = i
    · rw [hji, State.phase_set_self] at hj
      exact hji ▸ hplanned t k' hj
    · rw [s.phase_set_of_ne hji] at hj
      obtain ⟨hmem, ht⟩ := h.planned j t k' hj
      exact ⟨mem_append_left _ hmem, ht.trans hcurrent⟩

theorem enter (k : κ) {current : σ} {phase : Phase σ κ α}
    {outcome : Option (κ × α)} (hout : ∀ e ∈ items, e.call ≠ i)
    (hitem : Explains P (s.set i current phase).phase s.current
      [⟨actions.length, i, outcome⟩] current)
    (hinput : ∀ o ∈ outcome, (i, o.1) ∈ actions) (hcurrent : Follows P s.current current)
    (hread : ∀ t, phase = .read t → Follows P t current)
    (hplanned : ∀ t k', phase ≠ .planned t k') :
    Inv P s₀ (actions ++ [(i, k)]) (s.set i current phase)
      (items ++ [⟨actions.length, i, outcome⟩]) := by
  have hnew : (⟨actions.length, i, outcome⟩ : Item ι κ α) ∈
      items ++ [⟨actions.length, i, outcome⟩] := mem_append_right _ mem_cons_self
  refine h.update ?_ ?_ ?_ ?_ (fun _ => ⟨_, hnew, rfl⟩) hcurrent hread
    (fun t k' heq => absurd heq (hplanned t k'))
  · exact (h.explains.congr fun e he => s.phase_set_of_ne (hout e he) _ _).append hitem
  · have hi : i ∉ (items.map Item.place).map Prod.snd := by
      intro hmem
      obtain ⟨x, hx, hcall⟩ := mem_map.1 hmem
      obtain ⟨e, he, rfl⟩ := mem_map.1 hx
      exact hout e he hcall
    rw [map_append]
    exact h.placed.concat k hi
  · intro e he o ho
    rcases mem_append.1 he with he | he
    · exact mem_append_left _ (h.inputs e he o ho)
    · cases mem_singleton.1 he
      exact mem_append_left _ (hinput o ho)
  · exact fun e he _ => ⟨e, mem_append_left _ he, rfl⟩

theorem answer {i : ι} {k : κ} {t : σ} {a : α} (hi : s.phase i = .read t) (ha : P.answers i k t a) :
    ∃ items', Inv P s₀ (actions ++ [(i, k)]) (s.set i s.current (.done a)) items' := by
  obtain ⟨before, time, after, rfl, hothers, hbefore, hafter⟩ := h.reading_item hi
  have hold : ∀ e ∈ before ++ after, (s.set i s.current (.done a)).phase e.call = s.phase e.call :=
    fun e he => s.phase_set_of_ne (hothers e he) _ _
  have hmem : (⟨time, i, some (k, a)⟩ : Item ι κ α) ∈ before ++ ⟨time, i, some (k, a)⟩ :: after :=
    mem_append_right _ mem_cons_self
  refine ⟨before ++ ⟨time, i, some (k, a)⟩ :: after, h.update ?_ ?_ ?_ ?_
    (fun _ => ⟨_, hmem, rfl⟩) (.inl rfl) nofun nofun⟩
  · refine (hbefore.congr fun e he => hold e (mem_append_left _ he)).append ?_
    refine .answered (s.phase_set_self i _ _) ha ?_
    exact hafter.congr fun e he => hold e (mem_append_right _ he)
  · have hplaces : (before ++ ⟨time, i, some (k, a)⟩ :: after).map Item.place =
        (before ++ ⟨time, i, none⟩ :: after).map Item.place := by
      simp only [map_append, map_cons, Item.place]
    rw [hplaces]
    exact h.placed.later (i, k)
  · intro e he o ho
    rcases mem_cons.1 (perm_middle.mem_iff.1 he) with rfl | he
    · cases ho
      exact mem_append_right _ mem_cons_self
    · have hmem' := perm_middle.mem_iff.2 (mem_cons_of_mem ⟨time, i, none⟩ he)
      exact mem_append_left _ (h.inputs e hmem' o ho)
  · intro e he hne
    rcases mem_cons.1 (perm_middle.mem_iff.1 he) with rfl | he
    · exact absurd rfl hne
    · exact ⟨e, perm_middle.mem_iff.2 (mem_cons_of_mem _ he), rfl⟩

theorem plan {i : ι} (k : κ) {t : σ} (hi : s.phase i = .read t) :
    ∃ items', Inv P s₀ (actions ++ [(i, k)]) (s.set i s.current (.planned t k)) items' := by
  obtain ⟨before, time, after, rfl, hothers, hbefore, hafter⟩ := h.reading_item hi
  have hsub : (before ++ after).Sublist (before ++ ⟨time, i, none⟩ :: after) :=
    (List.Sublist.refl before).append (sublist_cons_self _ _)
  refine ⟨before ++ after, h.update ?_ ?_ ?_ ?_ ?_ (.inl rfl) nofun ?_⟩
  · exact (hbefore.append hafter).congr fun e he => s.phase_set_of_ne (hothers e he) _ _
  · exact (h.placed.later (i, k)).sublist (hsub.map _)
  · exact fun e he o ho => mem_append_left _ (h.inputs e (hsub.subset he) o ho)
  · intro e he hne
    rcases mem_cons.1 (perm_middle.mem_iff.1 he) with rfl | he
    · exact absurd rfl hne
    · exact ⟨e, he, rfl⟩
  · rintro (⟨t', ht'⟩ | ⟨a', ha'⟩)
    · cases ht'
    · cases ha'
  · rintro t' k' heq
    cases heq
    exact ⟨mem_append_right _ mem_cons_self, h.reading i t hi⟩

theorem step {k : κ} {s' : State ι σ κ α}
    (hstep : Step P i k s s') : ∃ items', Inv P s₀ (actions ++ [(i, k)]) s' items' := by
  cases hstep with
  | silent => exact ⟨items, h.silent (i, k)⟩
  | read hi =>
    have hout : ∀ e ∈ items, e.call ≠ i := h.call_ne (by simp [hi]) (by simp [hi])
    refine ⟨_, h.enter k hout (.reading (s.phase_set_self i _ _) (.nil _))
      nofun (.inl rfl) ?_ nofun⟩
    rintro t heq
    cases heq
    exact .inl rfl
  | answer hi ha => exact h.answer hi ha
  | plan hi => exact h.plan k hi
  | retry hi =>
    have hout : ∀ e ∈ items, e.call ≠ i := h.call_ne (by simp [hi]) (by simp [hi])
    refine ⟨items, h.update ?_ (h.placed.later (i, k)) ?_ (fun e he _ => ⟨e, he, rfl⟩) ?_ (.inl rfl)
      nofun nofun⟩
    · exact h.explains.congr fun e he => s.phase_set_of_ne (hout e he) _ _
    · exact fun e he o ho => mem_append_left _ (h.inputs e he o ho)
    · rintro (⟨t, ht⟩ | ⟨a, ha⟩)
      · cases ht
      · cases ha
  | @commit t u k' a hi hversion hc =>
    have hout : ∀ e ∈ items, e.call ≠ i := h.call_ne (by simp [hi]) (by simp [hi])
    obtain ⟨hmem, hfollows⟩ := h.planned i t k' hi
    -- the version is the one it has read, so the state is
    have hcurrent : t = s.current := by
      rcases hfollows with heq | hlt
      · exact heq
      · exact absurd hversion (Nat.ne_of_gt hlt)
    subst hcurrent
    refine ⟨_, h.enter k hout (.committed (s.phase_set_self i _ _) hc (.nil _)) ?_
      (.inr (P.version_lt hc)) nofun nofun⟩
    intro o ho
    cases ho
    exact hmem

theorem run {more : List (ι × κ)} {s' : State ι σ κ α}
    (hrun : Run P more s s') : ∃ items', Inv P s₀ (actions ++ more) s' items' := by
  induction hrun generalizing actions items with
  | nil => exact ⟨items, by rwa [append_nil]⟩
  | cons hstep _ ih =>
    obtain ⟨items₁, h₁⟩ := h.step hstep
    obtain ⟨items₂, h₂⟩ := ih h₁
    exact ⟨items₂, by rwa [append_assoc] at h₂⟩

end Inv

/-- When every call is done, there is a sequential run of the same calls that gives the same
answers and ends in the same state; its order is that of the calls in time. -/
theorem linearizable [DecidableEq ι] {s₀ : σ} {actions : List (ι × κ)} {s : State ι σ κ α}
    (hrun : Run P actions (.start s₀) s) {answer : ι → α} (hdone : ∀ i, s.phase i = .done (answer i)) :
    ∃ order : List (ι × κ × α), (order.map Prod.fst).Nodup ∧ (∀ i, i ∈ order.map Prod.fst) ∧
      (∀ x ∈ order, (x.1, x.2.1) ∈ actions ∧ x.2.2 = answer x.1) ∧
      (∀ i j, Precedes actions i j → [i, j].Sublist (order.map Prod.fst)) ∧
      Serial P s₀ order s.current := by
  obtain ⟨items, h⟩ := (Inv.start (P := P) s₀).run hrun
  -- every call is done, so every item has an outcome
  have houtcome : ∀ e ∈ items, ∃ k, e.outcome = some (k, answer e.call) := by
    intro e he
    rcases h.explains.phase_of_mem he with ⟨-, t, ht⟩ | ⟨k, a, hout, ha⟩
    · rw [hdone] at ht
      cases ht
    · rw [hdone] at ha
      cases ha
      exact ⟨k, hout⟩
  have hmem : ∀ i, i ∈ (items.map Item.place).map Prod.snd := by
    intro i
    obtain ⟨e, he, hcall⟩ := h.present i (.inr ⟨answer i, hdone i⟩)
    exact mem_map.2 ⟨_, mem_map_of_mem he, hcall⟩
  have horder : (items.filterMap fun e => e.outcome.map fun o => (e.call, o)).map Prod.fst =
      (items.map Item.place).map Prod.snd := by
    clear h hmem
    induction items with
    | nil => rfl
    | cons e items ih =>
      obtain ⟨⟨k, hk⟩, hrest⟩ := forall_mem_cons.1 houtcome
      rw [filterMap_cons_some (by rw [hk]; rfl), map_cons, ih hrest]
      rfl
  refine ⟨_, horder ▸ h.placed.nodup, horder ▸ hmem, ?_, ?_, h.explains.serial⟩
  · rintro ⟨i, k, a⟩ hx
    obtain ⟨e, he, hx⟩ := mem_filterMap.1 hx
    obtain ⟨k', hk'⟩ := houtcome e he
    rw [hk'] at hx
    cases hx
    exact ⟨h.inputs e he _ hk', rfl⟩
  · intro i j hij
    rw [horder]
    exact h.placed.sublist_of_precedes (hmem i) (hmem j) hij

end LatLng.Lib.Optimistic
