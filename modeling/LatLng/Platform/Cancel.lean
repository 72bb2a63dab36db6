import LatLng.Lib.Schedule
import LatLng.Platform.Mailbox

/-! A blocking receive and the caller that cancels it. The receiver holds the lock of the mailbox
from its look at the flag to its wait; the canceller stores the flag and notifies without the
lock. Nobody sends meanwhile. -/

namespace LatLng.Platform

open LatLng.Lib List

variable {α : Type}

inductive ReceiverPc (α : Type) where
  /-- About to take the lock for the first time. -/
  | entry
  /-- At the head of the loop, with the lock. -/
  | locked
  /-- The flag was not set when it was read. -/
  | loaded
  /-- There was nothing to receive. -/
  | found
  | waiting
  | woken
  | returned (value : Option α)

inductive CancellerPc where
  | idle
  | stored
  | notified
deriving DecidableEq

structure BlockedReceive (α : Type) where
  mailbox : Mailbox α
  cancel : Bool := false
  receiver : ReceiverPc α := .entry
  canceller : CancellerPc := .idle

inductive BlockedStep where
  | lock
  | load
  | receive
  | wait
  /-- The condition variable may wake a waiter for no reason. -/
  | spurious
  | relock
  | store
  | notifyAll
deriving DecidableEq

namespace BlockedReceive

def step (action : BlockedStep) (b : BlockedReceive α) : Option (BlockedReceive α) :=
  match action, b.receiver, b.canceller with
  | .lock, .entry, _ => some { b with receiver := .locked }
  | .load, .locked, _ =>
    some { b with receiver := if b.cancel then .returned none else .loaded }
  | .receive, .loaded, _ => match b.mailbox.tryRecv with
    | (some value, mailbox) => some { b with mailbox, receiver := .returned (some value) }
    | (none, mailbox) => some { b with mailbox, receiver := .found }
  | .wait, .found, _ => some { b with receiver := .waiting }
  | .spurious, .waiting, _ => some { b with receiver := .woken }
  | .relock, .woken, _ => some { b with receiver := .locked }
  | .store, _, .idle => some { b with cancel := true, canceller := .stored }
  | .notifyAll, .waiting, .stored => some { b with receiver := .woken, canceller := .notified }
  | .notifyAll, _, .stored => some { b with canceller := .notified }
  | _, _, _ => none

def hasReturned (b : BlockedReceive α) : Bool :=
  match b.receiver with
  | .returned _ => true
  | _ => false

def Halted (b : BlockedReceive α) : Prop := ∀ action, action ≠ .spurious → step action b = none

/-- The receiver has found the flag unset and nothing to receive, and does not wait yet. -/
def inWindow (b : BlockedReceive α) : Bool :=
  match b.receiver with
  | .loaded => b.mailbox.tryRecv.1.isNone
  | .found => true
  | _ => false

def Heard (action : BlockedStep) (b : BlockedReceive α) : Prop :=
  action = .notifyAll → b.inWindow = false

variable {b b' : BlockedReceive α} {action : BlockedStep} {actions : List BlockedStep}

inductive Moves : BlockedStep → BlockedReceive α → BlockedReceive α → Prop
  | lock (m : Mailbox α) (cancel : Bool) (k : CancellerPc) :
    Moves .lock ⟨m, cancel, .entry, k⟩ ⟨m, cancel, .locked, k⟩
  | loadSet (m : Mailbox α) (k : CancellerPc) :
    Moves .load ⟨m, true, .locked, k⟩ ⟨m, true, .returned none, k⟩
  | loadUnset (m : Mailbox α) (k : CancellerPc) :
    Moves .load ⟨m, false, .locked, k⟩ ⟨m, false, .loaded, k⟩
  | receiveSome {m m' : Mailbox α} {value : α} (h : m.tryRecv = (some value, m')) (cancel : Bool)
    (k : CancellerPc) :
    Moves .receive ⟨m, cancel, .loaded, k⟩ ⟨m', cancel, .returned (some value), k⟩
  | receiveNone {m m' : Mailbox α} (h : m.tryRecv = (none, m')) (cancel : Bool) (k : CancellerPc) :
    Moves .receive ⟨m, cancel, .loaded, k⟩ ⟨m', cancel, .found, k⟩
  | wait (m : Mailbox α) (cancel : Bool) (k : CancellerPc) :
    Moves .wait ⟨m, cancel, .found, k⟩ ⟨m, cancel, .waiting, k⟩
  | spurious (m : Mailbox α) (cancel : Bool) (k : CancellerPc) :
    Moves .spurious ⟨m, cancel, .waiting, k⟩ ⟨m, cancel, .woken, k⟩
  | relock (m : Mailbox α) (cancel : Bool) (k : CancellerPc) :
    Moves .relock ⟨m, cancel, .woken, k⟩ ⟨m, cancel, .locked, k⟩
  | store (m : Mailbox α) (cancel : Bool) (r : ReceiverPc α) :
    Moves .store ⟨m, cancel, r, .idle⟩ ⟨m, true, r, .stored⟩
  | wake (m : Mailbox α) (cancel : Bool) :
    Moves .notifyAll ⟨m, cancel, .waiting, .stored⟩ ⟨m, cancel, .woken, .notified⟩
  | notify (m : Mailbox α) (cancel : Bool) {r : ReceiverPc α} (h : r ≠ .waiting) :
    Moves .notifyAll ⟨m, cancel, r, .stored⟩ ⟨m, cancel, r, .notified⟩

theorem moves_of_step (hs : step action b = some b') : Moves action b b' := by
  obtain ⟨mailbox, cancel, receiver, canceller⟩ := b
  cases action with
  | lock => cases receiver <;> cases hs; exact .lock mailbox cancel canceller
  | load =>
    cases receiver <;> cases hs
    cases cancel
    · exact .loadUnset mailbox canceller
    · exact .loadSet mailbox canceller
  | receive =>
    cases receiver with
    | loaded =>
      simp only [step] at hs
      split at hs
      next value m hr =>
        cases hs
        exact .receiveSome hr cancel canceller
      next m hr =>
        cases hs
        exact .receiveNone hr cancel canceller
    | _ => cases hs
  | wait => cases receiver <;> cases hs; exact .wait mailbox cancel canceller
  | spurious => cases receiver <;> cases hs; exact .spurious mailbox cancel canceller
  | relock => cases receiver <;> cases hs; exact .relock mailbox cancel canceller
  | store =>
    cases canceller with
    | idle => cases receiver <;> cases hs <;> exact .store mailbox cancel _
    | _ => cases receiver <;> cases hs
  | notifyAll =>
    cases canceller with
    | stored =>
      cases receiver <;> cases hs <;>
        first | exact .wake mailbox cancel | exact .notify mailbox cancel nofun
    | _ => cases receiver <;> cases hs

/-! ### A wait that is heard ends -/

structure Awake (b : BlockedReceive α) : Prop where
  flag : b.canceller ≠ .idle → b.cancel = true
  window : b.canceller = .notified → b.inWindow = false
  waiting : b.canceller = .notified → b.receiver ≠ .waiting

theorem awake_start (mailbox : Mailbox α) : ({ mailbox } : BlockedReceive α).Awake where
  flag := fun h => absurd rfl h
  window := nofun
  waiting := nofun

theorem Awake.move (h : b.Awake) (hheard : Heard action b) (hs : step action b = some b') :
    b'.Awake := by
  obtain ⟨hflag, hwindow, hwaiting⟩ := h
  cases moves_of_step hs with
  | lock m cancel k | loadSet m k | receiveSome hr cancel k | spurious m cancel k
  | relock m cancel k =>
    exact ⟨hflag, fun _ => rfl, fun _ => nofun⟩
  | loadUnset m k =>
    -- the flag is not set, so the notification is not out yet
    have hidle : k = .idle := by
      by_contra hne
      cases hflag hne
    subst hidle
    exact ⟨hflag, nofun, nofun⟩
  | receiveNone hr cancel k =>
    have hout : k ≠ .notified := by
      intro hn
      have hfalse := hwindow hn
      simp [inWindow, hr] at hfalse
    exact ⟨hflag, fun hn => absurd hn hout, fun hn => absurd hn hout⟩
  | wait m cancel k =>
    have hout : k ≠ .notified := fun hn => by cases hwindow hn
    exact ⟨hflag, fun hn => absurd hn hout, fun hn => absurd hn hout⟩
  | store m cancel r => exact ⟨fun _ => rfl, nofun, nofun⟩
  | wake m cancel => exact ⟨fun _ => hflag nofun, fun _ => rfl, fun _ => nofun⟩
  | notify m cancel hne => exact ⟨fun _ => hflag nofun, fun _ => hheard rfl, fun _ => hne⟩

theorem halted_iff : b.Halted ↔ b.canceller = .notified ∧
    (b.hasReturned ∨ b.receiver = .waiting) := by
  obtain ⟨mailbox, cancel, receiver, canceller⟩ := b
  constructor
  · intro h
    have hstore := h .store nofun
    have hnotify := h .notifyAll nofun
    have hlock := h .lock nofun
    have hload := h .load nofun
    have hreceive := h .receive nofun
    have hwait := h .wait nofun
    have hrelock := h .relock nofun
    cases canceller with
    | idle => cases receiver <;> cases hstore
    | stored => cases receiver <;> cases hnotify
    | notified =>
      refine ⟨rfl, ?_⟩
      cases receiver with
      | entry => cases hlock
      | locked => cases hload
      | loaded =>
        simp only [BlockedReceive.step] at hreceive
        split at hreceive <;> cases hreceive
      | found => cases hwait
      | waiting => exact .inr rfl
      | woken => cases hrelock
      | returned value => exact .inl rfl
  · rintro ⟨hcanceller, hreceiver⟩ action hne
    subst hcanceller
    rcases hreceiver with hreturned | rfl
    · cases receiver with
      | returned value => cases action <;> rfl
      | _ => cases hreturned
    · cases action <;> first | rfl | exact absurd rfl hne

/-! ### A wait that is not heard does not -/

structure Lost (b : BlockedReceive α) : Prop where
  out : b.canceller = .notified
  asleep : b.inWindow = true ∨ b.receiver = .waiting

theorem Lost.move (h : b.Lost) (hs : step action b = some b') (hne : action ≠ .spurious) :
    b'.Lost := by
  obtain ⟨hout, hasleep⟩ := h
  cases moves_of_step hs with
  | receiveSome hr cancel k =>
    rcases hasleep with hwindow | hwaiting
    · simp [inWindow, hr] at hwindow
    · cases hwaiting
  | receiveNone hr cancel k => exact ⟨hout, .inl rfl⟩
  | wait m cancel k => exact ⟨hout, .inr rfl⟩
  | spurious m cancel k => exact absurd rfl hne
  | store m cancel r => cases hout
  | wake m cancel => cases hout
  | notify m cancel hr => cases hout
  | _ => rcases hasleep with hwindow | hwaiting <;> first | cases hwindow | cases hwaiting

theorem Lost.after (h : b.Lost) (hrun : runSteps step actions b = some b')
    (hspurious : .spurious ∉ actions) : b'.Lost := by
  induction actions generalizing b with
  | nil =>
    cases hrun
    exact h
  | cons action actions ih =>
    obtain ⟨c, hc, hrest⟩ := Option.bind_eq_some_iff.1 hrun
    have hne : action ≠ .spurious := fun heq => hspurious (heq ▸ mem_cons_self)
    exact ih (h.move hc hne) hrest fun hmem => hspurious (mem_cons_of_mem _ hmem)

theorem Lost.not_returned (h : b.Lost) : b.hasReturned = false := by
  obtain ⟨mailbox, cancel, receiver, canceller⟩ := b
  rcases h.asleep with hwindow | hwaiting
  · cases receiver with
    | returned value => cases hwindow
    | _ => rfl
  · subst hwaiting
    rfl

theorem lost_of_unheard (hs : step .notifyAll b = some b') (hwindow : b.inWindow) :
    b'.Lost := by
  obtain ⟨mailbox, cancel, receiver, canceller⟩ := b
  cases receiver with
  | loaded =>
    cases canceller <;> cases hs
    exact ⟨rfl, .inl hwindow⟩
  | found =>
    cases canceller <;> cases hs
    exact ⟨rfl, .inl rfl⟩
  | _ => cases hwindow

theorem heard_of_returned (hrun : runSteps step actions b = some b')
    (hspurious : .spurious ∉ actions) (hreturned : b'.hasReturned) :
    StepsMeet step Heard actions b := by
  induction actions generalizing b with
  | nil => trivial
  | cons action actions ih =>
    obtain ⟨c, hc, hrest⟩ := Option.bind_eq_some_iff.1 hrun
    have hlater : .spurious ∉ actions := fun hmem => hspurious (mem_cons_of_mem _ hmem)
    refine StepsMeet.cons ?_ hc (ih hrest hlater)
    rintro rfl
    by_contra hwindow
    have hlost := (lost_of_unheard hc (by simpa using hwindow)).after hrest hlater
    rw [hlost.not_returned] at hreturned
    cases hreturned

/-! ### No run goes on for ever -/

def receiverRank : ReceiverPc α → Nat
  | .entry => 4
  | .locked => 3
  | .loaded => 2
  | .found => 1
  | .waiting => 0
  | .woken => 4
  | .returned _ => 0

def cancellerRank : CancellerPc → Nat
  | .idle => 6
  | .stored => 5
  | .notified => 0

def rank (b : BlockedReceive α) : Nat := receiverRank b.receiver + cancellerRank b.canceller

theorem rank_step (hs : step action b = some b') :
    b'.rank + 1 ≤ b.rank + if action = .spurious then 5 else 0 := by
  cases moves_of_step hs with
  | store m cancel r => simp [rank, cancellerRank]
  | wake m cancel => exact Nat.le_refl _
  | notify m cancel hne => simp [rank, cancellerRank]
  | _ =>
    simp only [rank, receiverRank]
    split <;> first | omega | contradiction

theorem length_add_rank (hrun : runSteps step actions b = some b') :
    actions.length + b'.rank ≤ b.rank + 5 * actions.count .spurious := by
  induction actions generalizing b with
  | nil =>
    cases hrun
    simp
  | cons action actions ih =>
    obtain ⟨c, hc, hrest⟩ := Option.bind_eq_some_iff.1 hrun
    have hfirst := rank_step hc
    have hlater := ih hrest
    rw [length_cons, count_cons]
    by_cases hspurious : action = .spurious
    · simp only [hspurious, if_true, beq_self_eq_true] at hfirst ⊢
      omega
    · have hbeq : (action == BlockedStep.spurious) = false := by simpa using hspurious
      simp only [hspurious, if_false, hbeq, Bool.false_eq_true] at hfirst ⊢
      omega

/-- Every run comes to an end unless the receiver is woken again and again for no reason. If the
notification is heard, the call has then returned; without such wake-ups only then. -/
theorem cancelled_receive_returns (mailbox : Mailbox α)
    (hrun : runSteps step actions { mailbox } = some b) :
    actions.length ≤ 10 + 5 * actions.count .spurious ∧
    (StepsMeet step Heard actions { mailbox } → b.Halted → b.hasReturned = true) ∧
    (.spurious ∉ actions → b.Halted → b.hasReturned →
      StepsMeet step Heard actions { mailbox }) := by
  refine ⟨?_, ?_, fun hspurious _ => heard_of_returned hrun hspurious⟩
  · have hlength := length_add_rank hrun
    have hrank : ({ mailbox } : BlockedReceive α).rank = 10 := rfl
    omega
  · intro hheard hhalted
    have hawake : b.Awake :=
      runSteps_invariant (fun _ _ _ h hh hs => h.move hh hs) (awake_start mailbox) hheard hrun
    obtain ⟨hout, hreturned | hwaiting⟩ := halted_iff.1 hhalted
    · exact hreturned
    · exact absurd hwaiting (hawake.waiting hout)

theorem cancelled_while_waiting : ∃ b : BlockedReceive Nat,
    runSteps step [.lock, .load, .receive, .wait, .store, .notifyAll, .relock, .load]
      { mailbox := .channel 1 } = some b ∧ b.Halted ∧ b.hasReturned = true := by
  have hrun : runSteps step [.lock, .load, .receive, .wait, .store, .notifyAll, .relock, .load]
      ({ mailbox := .channel 1 } : BlockedReceive Nat) =
        some ⟨.channel 1, true, .returned none, .notified⟩ := rfl
  have hhalted : (⟨.channel 1, true, .returned none, .notified⟩ : BlockedReceive Nat).Halted :=
    halted_iff.2 ⟨rfl, .inl rfl⟩
  refine ⟨_, hrun, hhalted, (cancelled_receive_returns _ hrun).2.1 ?_ hhalted⟩
  refine stepsMeet_of_checkSteps (fun action b => action != .notifyAll || !b.inWindow) ?_ rfl
  intro action b hcheck hnotify
  simpa [hnotify] using hcheck

/-- The flag is stored and the notification sent between the look at the flag and the wait. -/
theorem cancelled_before_waiting : ∃ b : BlockedReceive Nat,
    runSteps step [.lock, .load, .store, .notifyAll, .receive, .wait]
      { mailbox := .channel 1 } = some b ∧ b.Halted ∧ b.hasReturned = false :=
  ⟨⟨.channel 1, true, .waiting, .notified⟩, rfl, halted_iff.2 ⟨rfl, .inr rfl⟩, rfl⟩

end BlockedReceive

end LatLng.Platform
