import Mathlib

/-! The bounded mailbox between a publisher and one subscriber. Received items stay in the ring
until newer ones push them out; the receiver keeps its own position. The native and the wasm
mailbox differ in how the state is shared, not in what a send or a receive does to it. The
sequence numbers are unbounded here. -/

namespace LatLng.Platform

open List

variable {α : Type}

structure MailboxState (α : Type) where
  capacity : Nat
  startSequence : Nat := 0
  nextSequence : Nat := 0
  items : List (Nat × α) := []

def dropOldest (capacity startSequence : Nat) : List (Nat × α) → Nat × List (Nat × α)
  | [] => (startSequence, [])
  | item :: items =>
    if capacity < items.length + 1 then dropOldest capacity (startSequence + 1) items
    else (startSequence, item :: items)

namespace MailboxState

def new (capacity : Nat) : MailboxState α := { capacity := max capacity 1 }

def push (s : MailboxState α) (value : α) : MailboxState α :=
  let (startSequence, items) :=
    dropOldest s.capacity s.startSequence (s.items ++ [(s.nextSequence, value)])
  { s with startSequence, nextSequence := s.nextSequence + 1, items }

end MailboxState

def receiveFromState (startSequence : Nat) (items : List (Nat × α)) (nextSequence : Nat) :
    Option α × Nat :=
  let nextSequence := if nextSequence < startSequence then startSequence else nextSequence
  match items[nextSequence - startSequence]? with
  | none => (none, nextSequence)
  | some (_, value) => (some value, nextSequence + 1)

structure Mailbox (α : Type) where
  state : MailboxState α
  nextSequence : Nat := 0

namespace Mailbox

def channel (capacity : Nat) : Mailbox α := { state := .new capacity }

def send (m : Mailbox α) (value : α) : Mailbox α := { m with state := m.state.push value }

def tryRecv (m : Mailbox α) : Option α × Mailbox α :=
  let (value, nextSequence) :=
    receiveFromState m.state.startSequence m.state.items m.nextSequence
  (value, { m with nextSequence })

end Mailbox

theorem dropOldest_subset (capacity startSequence : Nat) (items : List (Nat × α)) :
    (dropOldest capacity startSequence items).2 ⊆ items := by
  induction items generalizing startSequence with
  | nil => exact List.Subset.refl _
  | cons item items ih =>
    rw [dropOldest]
    split
    · exact List.Subset.trans (ih _) (subset_cons_self _ _)
    · exact List.Subset.refl _

theorem MailboxState.mem_push {s : MailboxState α} {value : α} {item : Nat × α}
    (h : item ∈ (s.push value).items) : item ∈ s.items ∨ item.2 = value := by
  have hmem := dropOldest_subset _ _ _ h
  rcases mem_append.1 hmem with hold | hnew
  · exact .inl hold
  · rw [mem_singleton.1 hnew]
    exact .inr rfl

theorem Mailbox.tryRecv_cases (m : Mailbox α) : m.tryRecv.2.state = m.state ∧
    ∀ value, m.tryRecv.1 = some value → ∃ n, (n, value) ∈ m.state.items := by
  rw [tryRecv, receiveFromState]
  refine ⟨by dsimp only, ?_⟩
  intro value hvalue
  dsimp only at hvalue
  split at hvalue
  next => cases hvalue
  next n v hitem =>
    cases hvalue
    exact ⟨n, mem_of_getElem? hitem⟩

/-! ### Histories -/

inductive MailboxOp (α : Type) where
  | send (value : α)
  | recv

/-- A mailbox with what was sent and what was received so far. A received value is noted with the
position that the receiver has passed. -/
structure Session (α : Type) where
  mailbox : Mailbox α
  sent : List α := []
  receipts : List (Nat × α) := []

def sentBy (ops : List (MailboxOp α)) : List α :=
  ops.filterMap fun
    | .send value => some value
    | .recv => none

def Mailbox.returned (m : Mailbox α) : List (MailboxOp α) → List α
  | [] => []
  | .send value :: ops => (m.send value).returned ops
  | .recv :: ops => m.tryRecv.1.toList ++ m.tryRecv.2.returned ops

namespace Session

def step (s : Session α) : MailboxOp α → Session α
  | .send value => { s with mailbox := s.mailbox.send value, sent := s.sent ++ [value] }
  | .recv => match s.mailbox.tryRecv with
    | (none, mailbox) => { s with mailbox }
    | (some value, mailbox) =>
      { s with mailbox, receipts := s.receipts ++ [(mailbox.nextSequence - 1, value)] }

def run (s : Session α) (ops : List (MailboxOp α)) : Session α := ops.foldl step s

def start (capacity : Nat) : Session α := { mailbox := .channel capacity }

def received (s : Session α) : List α := s.receipts.map Prod.snd

def numbered (values : List α) : List (Nat × α) := values.mapIdx fun i value => (i, value)

def oldest (s : Session α) : Nat := s.sent.length - s.mailbox.state.capacity

def position (s : Session α) : Nat := max s.mailbox.nextSequence s.oldest

/-- What was sent last, as many values as the capacity allows, without what was received. -/
def pending (s : Session α) : List (Nat × α) :=
  ((numbered s.sent).drop s.oldest).filter fun entry => entry.1 ∉ s.receipts.map Prod.fst

end Session

/-! ### The counters -/

theorem dropOldest_eq (capacity startSequence : Nat) (items : List (Nat × α)) :
    dropOldest capacity startSequence items =
      (startSequence + (items.length - capacity), items.drop (items.length - capacity)) := by
  induction items generalizing startSequence with
  | nil => simp [dropOldest]
  | cons item items ih =>
    rw [dropOldest, length_cons]
    split
    next h =>
      have hsub : items.length + 1 - capacity = items.length - capacity + 1 := by omega
      rw [ih, hsub, drop_succ_cons]
      congr 1
      omega
    next h =>
      have hsub : items.length + 1 - capacity = 0 := by omega
      rw [hsub]
      rfl

namespace Session

theorem length_numbered (values : List α) : (numbered values).length = values.length := by
  rw [numbered, length_mapIdx]

theorem numbered_concat (values : List α) (value : α) :
    numbered (values ++ [value]) = numbered values ++ [(values.length, value)] := by
  rw [numbered, mapIdx_concat]
  rfl

theorem getElem?_numbered (values : List α) (i : Nat) :
    (numbered values)[i]? = values[i]?.map fun value => (i, value) := by
  rw [numbered, getElem?_mapIdx]

theorem map_snd_numbered (values : List α) : (numbered values).map Prod.snd = values := by
  apply ext_getElem?
  intro i
  rw [getElem?_map, getElem?_numbered]
  cases values[i]? <;> rfl

theorem pairwise_numbered (values : List α) :
    ((numbered values).map Prod.fst).Pairwise (· < ·) := by
  have hrange : (numbered values).map Prod.fst = range values.length := by
    apply ext_getElem
    · simp [length_numbered]
    · simp [numbered]
  rw [hrange]
  exact pairwise_lt_range

theorem mem_numbered {values : List α} {entry : Nat × α} (h : entry ∈ numbered values) :
    values[entry.1]? = some entry.2 := by
  obtain ⟨i, hi⟩ := mem_iff_getElem?.1 h
  rw [getElem?_numbered] at hi
  obtain ⟨value, hvalue, rfl⟩ := Option.map_eq_some_iff.1 hi
  exact hvalue

/-- How the counters of the ring and of the receiver hang together with what was sent, and what
the receiver has made of the positions it has passed. -/
structure Inv (s : Session α) : Prop where
  next : s.mailbox.state.nextSequence = s.sent.length
  start : s.mailbox.state.startSequence = s.oldest
  items : s.mailbox.state.items = (numbered s.sent).drop s.oldest
  receiver : s.mailbox.nextSequence ≤ s.sent.length
  receipts : s.receipts.Sublist ((numbered s.sent).take s.mailbox.nextSequence)
  /-- A position that was passed was received, or is too old. -/
  passed : ∀ n < s.mailbox.nextSequence, n ∈ s.receipts.map Prod.fst ∨
    n + 1 + s.mailbox.state.capacity ≤ s.sent.length

theorem inv_start (capacity : Nat) : (start capacity : Session α).Inv where
  next := rfl
  start := (Nat.zero_sub _).symm
  items := by simp [start, Mailbox.channel, MailboxState.new, numbered]
  receiver := le_rfl
  receipts := List.Sublist.slnil
  passed := fun n h => absurd h (Nat.not_lt_zero n)

variable {s : Session α}

section

variable (h : s.Inv)

include h

theorem push_eq (value : α) : s.mailbox.state.push value =
    { capacity := s.mailbox.state.capacity
      startSequence := s.sent.length + 1 - s.mailbox.state.capacity
      nextSequence := s.sent.length + 1
      items := (numbered (s.sent ++ [value])).drop
        (s.sent.length + 1 - s.mailbox.state.capacity) } := by
  have hold : s.oldest ≤ (numbered s.sent).length := by
    rw [length_numbered, oldest]
    omega
  have hitems : s.mailbox.state.items ++ [(s.mailbox.state.nextSequence, value)] =
      (numbered (s.sent ++ [value])).drop s.oldest := by
    rw [h.items, h.next, numbered_concat, drop_append_of_le_length hold]
  have hlength : ((numbered (s.sent ++ [value])).drop s.oldest).length =
      s.sent.length + 1 - s.oldest := by
    rw [length_drop, length_numbered, length_append, length_singleton]
  have hstart : s.oldest + (s.sent.length + 1 - s.oldest - s.mailbox.state.capacity) =
      s.sent.length + 1 - s.mailbox.state.capacity := by
    rw [oldest]
    omega
  rw [MailboxState.push, dropOldest_eq, hitems, hlength, drop_drop, h.start, h.next, hstart]

theorem Inv.send (value : α) : (s.step (.send value)).Inv := by
  have hpush := push_eq h value
  have hlength : (s.sent ++ [value]).length = s.sent.length + 1 := by simp
  have htake : (numbered (s.sent ++ [value])).take s.mailbox.nextSequence =
      (numbered s.sent).take s.mailbox.nextSequence := by
    rw [numbered_concat, take_append_of_le_length (by rw [length_numbered]; exact h.receiver)]
  constructor
  · simp only [step, Mailbox.send, hpush, hlength]
  · simp only [step, Mailbox.send, hpush, hlength, oldest]
  · simp only [step, Mailbox.send, hpush, hlength, oldest]
  · simp only [step, Mailbox.send, hlength]
    exact Nat.le_succ_of_le h.receiver
  · simp only [step, Mailbox.send, htake]
    exact h.receipts
  · intro n hn
    simp only [step, Mailbox.send, hpush, hlength] at hn ⊢
    exact (h.passed n hn).imp id Nat.le_succ_of_le

theorem tryRecv_eq : s.mailbox.tryRecv =
    (s.sent[s.position]?, { s.mailbox with
      nextSequence := if s.position < s.sent.length then s.position + 1 else s.position }) := by
  have hmax : (if s.mailbox.nextSequence < s.oldest then s.oldest else s.mailbox.nextSequence) =
      s.position := by
    rw [position]
    split <;> omega
  have hindex : s.oldest + (s.position - s.oldest) = s.position := by
    rw [position]
    omega
  rw [Mailbox.tryRecv, receiveFromState, h.start, hmax, h.items, getElem?_drop, hindex,
    getElem?_numbered]
  cases hvalue : s.sent[s.position]? with
  | none =>
    have hge := getElem?_eq_none_iff.1 hvalue
    rw [if_neg (by omega)]
    rfl
  | some value =>
    have hlt := (List.getElem?_eq_some_iff.1 hvalue).1
    rw [if_pos hlt]
    rfl

theorem position_le : s.position ≤ s.sent.length := by
  have := h.receiver
  rw [position, oldest]
  omega

theorem Inv.left_behind {n : Nat} (hn : n < s.position) :
    n ∈ s.receipts.map Prod.fst ∨ n + 1 + s.mailbox.state.capacity ≤ s.sent.length := by
  by_cases hpassed : n < s.mailbox.nextSequence
  · exact h.passed n hpassed
  · right
    rw [position, oldest] at hn
    omega

theorem step_recv : s.step .recv =
    match s.sent[s.position]? with
    | none => { s with mailbox := { s.mailbox with nextSequence := s.position } }
    | some value =>
      { s with
        mailbox := { s.mailbox with nextSequence := s.position + 1 }
        receipts := s.receipts ++ [(s.position, value)] } := by
  rw [step, tryRecv_eq h]
  cases hvalue : s.sent[s.position]? with
  | none =>
    have hge := getElem?_eq_none_iff.1 hvalue
    have hlt : ¬ s.position < s.sent.length := by omega
    simp only [if_neg hlt]
  | some value =>
    have hlt := (List.getElem?_eq_some_iff.1 hvalue).1
    simp only [if_pos hlt, Nat.add_sub_cancel]

theorem Inv.recv : (s.step .recv).Inv := by
  rw [step_recv h]
  have hle : s.mailbox.nextSequence ≤ s.position := Nat.le_max_left _ _
  have hkept : s.receipts.Sublist ((numbered s.sent).take s.position) :=
    h.receipts.trans (take_sublist_take_left hle)
  cases hvalue : s.sent[s.position]? with
  | none =>
    exact ⟨h.next, h.start, h.items, position_le h, hkept, fun n hn => h.left_behind hn⟩
  | some value =>
    have hlt := (List.getElem?_eq_some_iff.1 hvalue).1
    refine ⟨h.next, h.start, h.items, hlt, ?_, ?_⟩
    · have hentry : (numbered s.sent)[s.position]? = some (s.position, value) := by
        rw [getElem?_numbered, hvalue]
        rfl
      have htake : (numbered s.sent).take (s.position + 1) =
          (numbered s.sent).take s.position ++ [(s.position, value)] := by
        rw [take_add_one, hentry]
        rfl
      rw [htake]
      exact hkept.append (List.Sublist.refl _)
    · intro n hn
      have hnumbers : (s.receipts ++ [(s.position, value)]).map Prod.fst =
          s.receipts.map Prod.fst ++ [s.position] := by simp
      rw [hnumbers]
      rcases Nat.lt_succ_iff_lt_or_eq.1 hn with hbefore | rfl
      · exact (h.left_behind hbefore).imp (mem_append_left _) id
      · exact .inl (mem_append_right _ (mem_singleton.2 rfl))

theorem Inv.step (op : MailboxOp α) : (s.step op).Inv := by
  cases op with
  | send value => exact h.send value
  | recv => exact h.recv

theorem Inv.run (ops : List (MailboxOp α)) : (s.run ops).Inv := by
  induction ops generalizing s with
  | nil => exact h
  | cons op ops ih => exact ih (h.step op)

/-! ### What is left -/

theorem Inv.number_lt {n : Nat} (hn : n ∈ s.receipts.map Prod.fst) :
    n < s.mailbox.nextSequence := by
  obtain ⟨receipt, hr, rfl⟩ := mem_map.1 hn
  obtain ⟨i, hi⟩ := mem_iff_getElem?.1 (h.receipts.subset hr)
  rw [getElem?_take] at hi
  split at hi
  next hlt =>
    rw [getElem?_numbered] at hi
    obtain ⟨value, -, rfl⟩ := Option.map_eq_some_iff.1 hi
    exact hlt
  next => cases hi

theorem Inv.pending_eq : s.pending = (numbered s.sent).drop s.position := by
  have hsplit : (numbered s.sent).drop s.oldest =
      ((numbered s.sent).drop s.oldest).take (s.position - s.oldest) ++
        (numbered s.sent).drop s.position := by
    have hposition : s.oldest + (s.position - s.oldest) = s.position := by
      rw [position]
      omega
    rw [← hposition, ← drop_drop, hposition, take_append_drop]
  have hnumber : ∀ {k i : Nat} {entry : Nat × α}, ((numbered s.sent).drop k)[i]? = some entry →
      entry.1 = k + i := by
    intro k i entry he
    rw [getElem?_drop, getElem?_numbered] at he
    obtain ⟨value, -, rfl⟩ := Option.map_eq_some_iff.1 he
    rfl
  rw [pending, hsplit, filter_append]
  have hbefore : (((numbered s.sent).drop s.oldest).take (s.position - s.oldest)).filter
      (fun entry => entry.1 ∉ s.receipts.map Prod.fst) = [] := by
    refine filter_eq_nil_iff.2 fun entry he => ?_
    obtain ⟨i, hi⟩ := mem_iff_getElem?.1 he
    rw [getElem?_take] at hi
    split at hi
    next hlt =>
      have heq := hnumber hi
      -- it lies before the position, and is not too old: so it was received
      rcases h.left_behind (n := entry.1) (by omega) with hmem | hold
      · simpa using hmem
      · rw [oldest] at heq
        omega
    next => cases hi
  have hafter : ((numbered s.sent).drop s.position).filter
      (fun entry => entry.1 ∉ s.receipts.map Prod.fst) = (numbered s.sent).drop s.position := by
    refine filter_eq_self.2 fun entry he => ?_
    obtain ⟨i, hi⟩ := mem_iff_getElem?.1 he
    have heq := hnumber hi
    have hle : s.mailbox.nextSequence ≤ s.position := Nat.le_max_left _ _
    refine decide_eq_true fun hmem => ?_
    have hlt := h.number_lt hmem
    omega
  rw [hbefore, hafter, nil_append]

theorem Inv.recv_pending :
    s.mailbox.tryRecv.1 = s.pending.head?.map Prod.snd ∧
      (s.step .recv).receipts = s.receipts ++ s.pending.head?.toList ∧
      (s.step .recv).pending = s.pending.tail := by
  have hpending := h.pending_eq
  have hpending' := h.recv.pending_eq
  have hold : s.oldest ≤ s.position := Nat.le_max_right _ _
  have hhead : s.pending.head? = s.sent[s.position]?.map fun value => (s.position, value) := by
    rw [hpending, head?_drop, getElem?_numbered]
  refine ⟨?_, ?_, ?_⟩
  · rw [tryRecv_eq h, hhead]
    cases s.sent[s.position]? <;> rfl
  · rw [step_recv h, hhead]
    cases s.sent[s.position]? with
    | none => exact (append_nil _).symm
    | some value => rfl
  · rw [hpending', hpending, tail_drop]
    cases hvalue : s.sent[s.position]? with
    | none =>
      have hge := getElem?_eq_none_iff.1 hvalue
      have hlen := length_numbered s.sent
      rw [step_recv h, hvalue]
      simp only [position, oldest] at hge hold ⊢
      rw [drop_eq_nil_iff.2, drop_eq_nil_iff.2] <;> omega
    | some value =>
      rw [step_recv h, hvalue]
      congr 1
      simp only [position, oldest] at hold ⊢
      omega

theorem Inv.drain (n : Nat) :
    (s.run (replicate n .recv)).receipts = s.receipts ++ s.pending.take n ∧
      (s.run (replicate n .recv)).pending = s.pending.drop n := by
  induction n generalizing s with
  | zero => exact ⟨(append_nil _).symm, rfl⟩
  | succ n ih =>
    obtain ⟨-, hreceipts, hpending⟩ := h.recv_pending
    obtain ⟨hrest, hleft⟩ := ih h.recv
    rw [hreceipts, hpending] at hrest
    rw [hpending] at hleft
    have hrun : s.run (replicate (n + 1) .recv) =
        (s.step .recv).run (replicate n .recv) := rfl
    rw [hrun, hrest, hleft]
    cases s.pending with
    | nil => simp
    | cons entry entries => simp

end

/-! ### Delivery -/

variable (s) (ops : List (MailboxOp α))

theorem capacity_run :
    (s.run ops).mailbox.state.capacity = s.mailbox.state.capacity := by
  induction ops generalizing s with
  | nil => rfl
  | cons op ops ih =>
    have hstep : (s.step op).mailbox.state.capacity = s.mailbox.state.capacity := by
      cases op with
      | send value => rfl
      | recv =>
        rw [step]
        rcases hr : s.mailbox.tryRecv with ⟨_ | _, mailbox⟩ <;>
          exact congrArg (fun r => (Prod.snd r).state.capacity) hr.symm
    exact (ih (s.step op)).trans hstep

theorem sent_run : (s.run ops).sent = s.sent ++ sentBy ops := by
  induction ops generalizing s with
  | nil => exact (append_nil _).symm
  | cons op ops ih =>
    rw [show s.run (op :: ops) = (s.step op).run ops from rfl, ih]
    cases op with
    | send value => simp [step, sentBy]
    | recv =>
      have hsent : (s.step .recv).sent = s.sent := by
        rw [step]
        rcases s.mailbox.tryRecv with ⟨_ | _, mailbox⟩ <;> rfl
      rw [hsent]
      rfl

theorem received_run :
    (s.run ops).received = s.received ++ s.mailbox.returned ops := by
  induction ops generalizing s with
  | nil => exact (append_nil _).symm
  | cons op ops ih =>
    rw [show s.run (op :: ops) = (s.step op).run ops from rfl, ih]
    cases op with
    | send value => rfl
    | recv =>
      rw [step, Mailbox.returned]
      rcases s.mailbox.tryRecv with ⟨_ | value, mailbox⟩
      · rfl
      · simp [received]

variable {s}

/-- What is received is a part of what was sent, in the order of sending and each position once;
a position is passed over only when as many newer values have been sent as the mailbox holds; and
whenever the sends have stopped, the receiver gets all of the last values that it has not had. -/
theorem mailbox_delivers (capacity : Nat) (ops : List (MailboxOp α)) :
    let s : Session α := (start capacity).run ops
    (s.sent = sentBy ops ∧ s.received = (Mailbox.channel capacity).returned ops ∧
      s.oldest = s.sent.length - max capacity 1) ∧
    (s.received.Sublist s.sent ∧ (s.receipts.map Prod.fst).Pairwise (· < ·) ∧
      ∀ receipt ∈ s.receipts, s.sent[receipt.1]? = some receipt.2) ∧
    (∀ value mailbox, s.mailbox.tryRecv = (some value, mailbox) →
      ∀ n < mailbox.nextSequence - 1, n ∉ s.receipts.map Prod.fst →
        n + 1 + max capacity 1 ≤ s.sent.length) ∧
    ∀ n, s.mailbox.returned (replicate n .recv) = (s.pending.take n).map Prod.snd := by
  intro s
  have hinv : s.Inv := (inv_start capacity).run ops
  have hcapacity : s.mailbox.state.capacity = max capacity 1 := capacity_run _ ops
  have hreceipts : s.receipts.Sublist (numbered s.sent) :=
    hinv.receipts.trans (take_sublist _ _)
  refine ⟨⟨sent_run _ ops, received_run _ ops, by rw [oldest, hcapacity]⟩, ⟨?_, ?_, ?_⟩, ?_, ?_⟩
  · have hvalues := hreceipts.map Prod.snd
    rwa [map_snd_numbered] at hvalues
  · exact (pairwise_numbered s.sent).sublist (hreceipts.map Prod.fst)
  · exact fun receipt hr => mem_numbered (hreceipts.subset hr)
  · intro value mailbox hrecv n hn hmem
    rw [tryRecv_eq hinv] at hrecv
    have hvalue : s.sent[s.position]? = some value := congrArg Prod.fst hrecv
    have hlt := (List.getElem?_eq_some_iff.1 hvalue).1
    have hnext : mailbox.nextSequence = s.position + 1 := by
      have hmailbox := congrArg (fun r => (Prod.snd r).nextSequence) hrecv
      exact hmailbox.symm.trans (if_pos hlt)
    rw [hnext, Nat.add_sub_cancel] at hn
    rw [← hcapacity]
    exact (hinv.left_behind hn).resolve_left hmem
  · intro n
    have hdrain := congrArg (map Prod.snd) (hinv.drain n).1
    have hreturned := received_run s (replicate n .recv)
    rw [received] at hreturned
    rw [hreturned, map_append] at hdrain
    exact append_cancel_left hdrain

end Session

end LatLng.Platform
