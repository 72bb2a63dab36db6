import LatLng.Geofence.Registry
import LatLng.Lib.Schedule
import LatLng.Platform.Mailbox

/-! Events on their way to the subscribers. A mutation stamps its events with the generation and
sends them while it holds the registry; FLUSHDB bumps the generation while it holds the registry;
a receive reads the generation and then looks into its mailbox, holding neither. -/

namespace LatLng.Geofence

open LatLng.Lib Platform List

structure StampedEvent where
  event : GeofenceEvent
  generation : Nat
  /-- How many flushes had finished when the event was sent. -/
  published : Nat

/-- Where a receive call is. Its start is given by the number of flushes finished by then. A
blocking call that finds nothing looks again later, with the generation it has read. -/
inductive ReceiveCall where
  | idle
  | top (started : Nat) (blocking : Bool)
  | reading (started current : Nat) (blocking : Bool)

structure Subscriber where
  exact_ : List String
  patterns : List String
  mailbox : Mailbox StampedEvent
  call : ReceiveCall := .idle

inductive Holder where
  | free
  | publishing (generation : Nat) (sends : List (Nat × GeofenceEvent))
  | flushing (bumped : Bool)

structure Hub where
  generation : Nat := 0
  subscribers : List Subscriber := []
  holder : Holder := .free
  /-- The flushes that have begun, and those that have finished. -/
  begun : Nat := 0
  finished : Nat := 0
  /-- The events that were returned, each with the start of the call. -/
  returned : List (Nat × StampedEvent) := []
  /-- The events that failed the generation check, each with the flushes begun by then. -/
  dropped : List (StampedEvent × Nat) := []

inductive HubStep where
  | subscribe (channels patterns : List String)
  | publish (events : List GeofenceEvent)
  | send
  | endPublish
  | beginFlush
  | bump
  | endFlush
  | call (subscriber : Nat) (blocking : Bool)
  | readGeneration (subscriber : Nat)
  | look (subscriber : Nat)
  | cancel (subscriber : Nat)

variable (globMatch : String → String → Bool) (capacity : Nat)

def Subscriber.wants (s : Subscriber) (event : GeofenceEvent) : Bool :=
  match event.group with
  | none => false
  | some group =>
    s.exact_.any (· == group) || s.patterns.any fun pattern => globMatch pattern group

def sendsOf (subscribers : List Subscriber) (events : List GeofenceEvent) :
    List (Nat × GeofenceEvent) :=
  events.flatMap fun event => (subscribers.zipIdx.filter fun s => s.1.wants globMatch event).map
    fun s => (s.2, event)

namespace Hub

def at_ (hub : Hub) (subscriber : Nat) (f : Subscriber → Option (Hub × Subscriber)) : Option Hub :=
  match hub.subscribers[subscriber]? with
  | none => none
  | some s => (f s).map fun (hub, s) => { hub with subscribers := hub.subscribers.set subscriber s }

def lookInto (hub : Hub) (s : Subscriber) (started current : Nat) (blocking : Bool) :
    Hub × Subscriber :=
  match s.mailbox.tryRecv with
  | (none, mailbox) =>
    (hub, { s with mailbox, call := if blocking then s.call else .idle })
  | (some event, mailbox) =>
    if current ≤ event.generation then
      ({ hub with returned := hub.returned ++ [(started, event)] }, { s with mailbox, call := .idle })
    else
      ({ hub with dropped := hub.dropped ++ [(event, hub.begun)] },
        { s with mailbox, call := .top started blocking })

def step (action : HubStep) (hub : Hub) : Option Hub :=
  match action, hub.holder with
  | .subscribe exact_ patterns, .free =>
    some { hub with
      subscribers := hub.subscribers ++ [{ exact_, patterns, mailbox := .channel capacity }] }
  | .publish events, .free =>
    some { hub with holder := .publishing hub.generation (sendsOf globMatch hub.subscribers events) }
  | .send, .publishing generation ((i, event) :: sends) =>
    hub.at_ i fun s =>
      some ({ hub with holder := .publishing generation sends },
        { s with mailbox := s.mailbox.send { event, generation, published := hub.finished } })
  | .endPublish, .publishing _ [] => some { hub with holder := .free }
  | .beginFlush, .free => some { hub with holder := .flushing false, begun := hub.begun + 1 }
  | .bump, .flushing false =>
    some { hub with holder := .flushing true, generation := hub.generation + 1 }
  | .endFlush, .flushing true => some { hub with holder := .free, finished := hub.finished + 1 }
  | .call i blocking, _ => hub.at_ i fun s => match s.call with
    | .idle => some (hub, { s with call := .top hub.finished blocking })
    | _ => none
  | .readGeneration i, _ => hub.at_ i fun s => match s.call with
    | .top started blocking =>
      some (hub, { s with call := .reading started hub.generation blocking })
    | _ => none
  | .look i, _ => hub.at_ i fun s => match s.call with
    | .reading started current blocking => some (hub.lookInto s started current blocking)
    | _ => none
  | .cancel i, _ => hub.at_ i fun s => match s.call with
    | .reading _ _ true => some (hub, { s with call := .idle })
    | _ => none
  | _, _ => none

/-! ### Stamps tell which side of a flush an event is on -/

def Stamped (finished : Nat) (event : StampedEvent) : Prop :=
  event.generation = event.published ∧ event.published ≤ finished

def Current (finished generation : Nat) : ReceiveCall → Prop
  | .idle => True
  | .top started _ => started ≤ finished
  | .reading started current _ => started ≤ finished ∧ started ≤ current ∧ current ≤ generation

structure Member (finished generation : Nat) (s : Subscriber) : Prop where
  stamped : ∀ item ∈ s.mailbox.state.items, Stamped finished item.2
  current : Current finished generation s.call

def Counted (hub : Hub) : Prop :=
  match hub.holder with
  | .free => hub.generation = hub.finished ∧ hub.begun = hub.finished
  | .publishing generation _ =>
    generation = hub.generation ∧ hub.generation = hub.finished ∧ hub.begun = hub.finished
  | .flushing false => hub.generation = hub.finished ∧ hub.begun = hub.finished + 1
  | .flushing true => hub.generation = hub.finished + 1 ∧ hub.begun = hub.finished + 1

structure Separated (hub : Hub) : Prop where
  counted : hub.Counted
  members : ∀ s ∈ hub.subscribers, Member hub.finished hub.generation s
  returned : ∀ r ∈ hub.returned, r.1 ≤ r.2.published
  dropped : ∀ d ∈ hub.dropped, d.1.published < d.2

theorem Counted.bounds {hub : Hub} (h : hub.Counted) :
    hub.finished ≤ hub.generation ∧ hub.generation ≤ hub.begun := by
  rw [Counted] at h
  split at h <;> omega

variable {s : Subscriber}

theorem Member.mono {finished finished' generation generation' : Nat}
    (h : Member finished generation s) (hf : finished ≤ finished')
    (hg : generation ≤ generation') : Member finished' generation' s := by
  refine ⟨fun item hitem => ?_, ?_⟩
  · obtain ⟨heq, hle⟩ := h.stamped item hitem
    exact ⟨heq, Nat.le_trans hle hf⟩
  · have hcurrent := h.current
    cases hc : s.call with
    | idle => trivial
    | top started blocking =>
      rw [hc] at hcurrent
      exact Nat.le_trans hcurrent hf
    | reading started current blocking =>
      rw [hc] at hcurrent
      exact ⟨Nat.le_trans hcurrent.1 hf, hcurrent.2.1, Nat.le_trans hcurrent.2.2 hg⟩

variable {hub hub' : Hub} {i : Nat}

theorem at_cases {f : Subscriber → Option (Hub × Subscriber)} (h : hub.at_ i f = some hub') :
    ∃ s next s', hub.subscribers[i]? = some s ∧ f s = some (next, s') ∧
      hub' = { next with subscribers := next.subscribers.set i s' } := by
  rw [at_] at h
  split at h
  · cases h
  next s hs =>
    obtain ⟨⟨next, s'⟩, hf, rfl⟩ := Option.map_eq_some_iff.1 h
    exact ⟨s, next, s', hs, hf, rfl⟩

theorem members_set {finished generation : Nat} {subscribers : List Subscriber}
    (h : ∀ s ∈ subscribers, Member finished generation s) (hs : Member finished generation s) :
    ∀ t ∈ subscribers.set i s, Member finished generation t := by
  intro t ht
  rcases mem_or_eq_of_mem_set ht with hold | rfl
  · exact h t hold
  · exact hs

theorem Separated.lookInto (h : hub.Separated) (hs : s ∈ hub.subscribers)
    {started current : Nat} {blocking : Bool} (hcall : s.call = .reading started current blocking) :
    Separated { (hub.lookInto s started current blocking).1 with
      subscribers := (hub.lookInto s started current blocking).1.subscribers.set i
        (hub.lookInto s started current blocking).2 } := by
  have hmember := h.members s hs
  have hcurrent := hmember.current
  rw [hcall] at hcurrent
  obtain ⟨hstarted, hstart, hread⟩ := hcurrent
  obtain ⟨hstate, hitem⟩ := s.mailbox.tryRecv_cases
  obtain ⟨hfinished, hbegun⟩ := h.counted.bounds
  rw [Hub.lookInto]
  rcases hr : s.mailbox.tryRecv with ⟨_ | event, mailbox⟩
  · rw [hr] at hstate
    refine ⟨h.counted, members_set h.members ⟨?_, ?_⟩, h.returned, h.dropped⟩
    · rw [hstate]
      exact hmember.stamped
    · cases blocking with
      | false => trivial
      | true => exact hmember.current
  · rw [hr] at hstate hitem
    obtain ⟨n, hmem⟩ := hitem event rfl
    obtain ⟨hstamp, hpublished⟩ := hmember.stamped _ hmem
    have hmailbox : ∀ item ∈ mailbox.state.items, Stamped hub.finished item.2 := by
      rw [hstate]
      exact hmember.stamped
    dsimp only at hstamp hpublished ⊢
    split
    next hnew =>
      -- the event is at least as new as the generation, which was read after the start
      refine ⟨h.counted, members_set h.members ⟨hmailbox, trivial⟩, ?_, h.dropped⟩
      intro r hr
      rcases mem_append.1 hr with hold | hlast
      · exact h.returned r hold
      · rw [mem_singleton.1 hlast]
        dsimp only
        omega
    next hold =>
      -- the generation that was read is newer than the event
      refine ⟨h.counted, members_set h.members ⟨hmailbox, ?_⟩, h.returned, ?_⟩
      · exact hstarted
      · intro d hd
        rcases mem_append.1 hd with hbefore | hlast
        · exact h.dropped d hbefore
        · rw [mem_singleton.1 hlast]
          dsimp only
          omega

theorem Separated.recount (h : hub.Separated) (hcounted : hub'.Counted)
    (hsubscribers : hub'.subscribers = hub.subscribers) (hf : hub.finished ≤ hub'.finished)
    (hg : hub.generation ≤ hub'.generation) (hreturned : hub'.returned = hub.returned)
    (hdropped : hub'.dropped = hub.dropped) : hub'.Separated := by
  refine ⟨hcounted, ?_, ?_, ?_⟩
  · rw [hsubscribers]
    exact fun s hs => (h.members s hs).mono hf hg
  · rw [hreturned]
    exact h.returned
  · rw [hdropped]
    exact h.dropped

variable {globMatch capacity} {action : HubStep} {actions : List HubStep}

theorem Separated.move (h : hub.Separated) (hs : step globMatch capacity action hub = some hub') :
    hub'.Separated := by
  have hcounted := h.counted
  obtain ⟨hfinished, hbegun⟩ := hcounted.bounds
  unfold step at hs
  split at hs
  next exact_ patterns hholder =>
    cases hs
    refine ⟨hcounted, ?_, h.returned, h.dropped⟩
    intro s hs
    rcases mem_append.1 hs with hold | hnew
    · exact h.members s hold
    · rw [mem_singleton.1 hnew]
      exact ⟨fun item hitem => absurd hitem not_mem_nil, trivial⟩
  next events hholder =>
    cases hs
    rw [Counted, hholder] at hcounted
    exact h.recount ⟨rfl, hcounted⟩ rfl le_rfl le_rfl rfl rfl
  next generation i event sends hholder =>
    obtain ⟨s, next, s', hget, hf, rfl⟩ := at_cases hs
    cases hf
    rw [Counted, hholder] at hcounted
    obtain ⟨rfl, hgeneration, hall⟩ := hcounted
    have hmember := h.members s (mem_of_getElem? hget)
    refine ⟨⟨rfl, hgeneration, hall⟩, members_set h.members ⟨?_, hmember.current⟩, h.returned,
      h.dropped⟩
    intro item hitem
    rcases MailboxState.mem_push hitem with hold | hnew
    · exact hmember.stamped item hold
    · rw [hnew]
      exact ⟨hgeneration, le_rfl⟩
  next generation hholder =>
    cases hs
    rw [Counted, hholder] at hcounted
    exact h.recount hcounted.2 rfl le_rfl le_rfl rfl rfl
  next hholder =>
    cases hs
    rw [Counted, hholder] at hcounted
    exact h.recount ⟨hcounted.1, congrArg (· + 1) hcounted.2⟩ rfl le_rfl le_rfl rfl rfl
  next hholder =>
    cases hs
    rw [Counted, hholder] at hcounted
    exact h.recount ⟨congrArg (· + 1) hcounted.1, hcounted.2⟩ rfl le_rfl (Nat.le_succ _) rfl rfl
  next hholder =>
    cases hs
    rw [Counted, hholder] at hcounted
    exact h.recount hcounted rfl (Nat.le_succ _) le_rfl rfl rfl
  next i blocking _ =>
    obtain ⟨s, next, s', hget, hf, rfl⟩ := at_cases hs
    have hmember := h.members s (mem_of_getElem? hget)
    split at hf <;> cases hf
    exact ⟨hcounted, members_set h.members ⟨hmember.stamped, le_rfl⟩, h.returned, h.dropped⟩
  next i _ =>
    obtain ⟨s, next, s', hget, hf, rfl⟩ := at_cases hs
    have hmember := h.members s (mem_of_getElem? hget)
    have hcurrent := hmember.current
    split at hf <;> cases hf
    next started blocking hcall =>
      rw [hcall] at hcurrent
      have hread : Current hub.finished hub.generation (.reading started hub.generation blocking) :=
        ⟨hcurrent, Nat.le_trans hcurrent hfinished, le_rfl⟩
      exact ⟨hcounted, members_set h.members ⟨hmember.stamped, hread⟩, h.returned, h.dropped⟩
  next i _ =>
    obtain ⟨s, next, s', hget, hf, rfl⟩ := at_cases hs
    split at hf
    next started current blocking hcall =>
      have hpair := Option.some.inj hf
      have hnext : next = (hub.lookInto s started current blocking).1 :=
        (congrArg Prod.fst hpair).symm
      have hs' : s' = (hub.lookInto s started current blocking).2 :=
        (congrArg Prod.snd hpair).symm
      rw [hnext, hs']
      exact h.lookInto (mem_of_getElem? hget) hcall
    next => cases hf
  next i _ =>
    obtain ⟨s, next, s', hget, hf, rfl⟩ := at_cases hs
    have hmember := h.members s (mem_of_getElem? hget)
    split at hf <;> cases hf
    exact ⟨hcounted, members_set h.members ⟨hmember.stamped, trivial⟩, h.returned, h.dropped⟩
  next => cases hs

theorem separated_start : ({} : Hub).Separated where
  counted := ⟨rfl, rfl⟩
  members := fun _ hs => absurd hs not_mem_nil
  returned := fun _ hr => absurd hr not_mem_nil
  dropped := fun _ hd => absurd hd not_mem_nil

/-- A call returns no event that was sent before a flush which had finished when the call started,
and the generation check drops no event after whose sending no flush has begun. -/
theorem flush_separates_events (hrun : runSteps (step globMatch capacity) actions {} = some hub) :
    (∀ r ∈ hub.returned, r.1 ≤ r.2.published) ∧
      ∀ d ∈ hub.dropped, d.1.published < d.2 := by
  have hseparated : hub.Separated :=
    runSteps_invariant (fun _ _ _ h _ hs => h.move hs) separated_start
      (stepsMeet_of_forall (fun _ _ => trivial) actions ({} : Hub)) hrun
  exact ⟨hseparated.returned, hseparated.dropped⟩

def flushRun : List HubStep :=
  let event : GeofenceEvent :=
    { command := .set, detect := .enter, collection := "fleet", id := "truck", object := .string ""
      fields := ∅, timestampNs := 0, eventId := none, jobId := none, hook := none
      group := some "yard", nearby := none }
  [.subscribe ["yard"] [], .publish [event], .send, .endPublish, .beginFlush, .bump, .endFlush,
    .publish [event], .send, .endPublish, .call 0 false, .readGeneration 0, .look 0,
    .readGeneration 0, .look 0]

theorem flushRun_separates : ∃ hub, runSteps (step (fun _ _ => false) 4) flushRun {} = some hub ∧
    hub.returned.length = 1 ∧ hub.dropped.length = 1 ∧
    (∀ r ∈ hub.returned, r.1 ≤ r.2.published) ∧ ∀ d ∈ hub.dropped, d.1.published < d.2 := by
  have hsome : (runSteps (step (fun _ _ => false) 4) flushRun ({} : Hub)).isSome = true := rfl
  obtain ⟨hub, hrun⟩ := Option.isSome_iff_exists.1 hsome
  have hreturned : (runSteps (step (fun _ _ => false) 4) flushRun ({} : Hub)).map
      (fun hub => (hub.returned.length, hub.dropped.length)) = some (1, 1) := rfl
  rw [hrun] at hreturned
  have hcounts := Option.some.inj hreturned
  exact ⟨hub, hrun, congrArg Prod.fst hcounts, congrArg Prod.snd hcounts,
    flush_separates_events hrun⟩

end Hub

/-! ### Records of receivers that are gone

A receiver that is dropped tells the registry nothing: its mailbox is shared with the sender, a
send into it succeeds, and no operation of the registry removes a subscriber. -/

structure House where
  hub : Hub := {}
  gone : List Nat := []

inductive HouseStep where
  | hub (action : HubStep)
  | drop (subscriber : Nat)

def HubStep.receiver? : HubStep → Option Nat
  | .call i _ => some i
  | .readGeneration i => some i
  | .look i => some i
  | .cancel i => some i
  | _ => none

namespace House

def step : HouseStep → House → Option House
  | .hub action, house =>
    if action.receiver?.any (· ∈ house.gone) then none
    else (Hub.step globMatch capacity action house.hub).map fun hub => { house with hub }
  | .drop i, house =>
    if i < house.hub.subscribers.length ∧ i ∉ house.gone then
      some { house with gone := i :: house.gone }
    else none

def receivers (house : House) : Nat :=
  (range house.hub.subscribers.length).countP (· ∉ house.gone)

def buffered (house : House) : Nat :=
  (house.hub.subscribers.map fun s => s.mailbox.state.items.length).sum

end House

variable {globMatch capacity}

def Subscriber.Fits (capacity : Nat) (s : Subscriber) : Prop :=
  s.mailbox.state.capacity = max capacity 1 ∧ s.mailbox.state.items.length ≤ max capacity 1

theorem Subscriber.Fits.send {s : Subscriber} (h : s.Fits capacity) (event : StampedEvent) :
    Subscriber.Fits capacity { s with mailbox := s.mailbox.send event } := by
  refine ⟨h.1, ?_⟩
  simp only [Mailbox.send, MailboxState.push, dropOldest_eq, length_drop, h.1]
  omega

theorem Hub.lookInto_fits {hub : Hub} {s : Subscriber} (h : s.Fits capacity)
    (started current : Nat) (blocking : Bool) :
    (hub.lookInto s started current blocking).1.subscribers = hub.subscribers ∧
      (hub.lookInto s started current blocking).2.Fits capacity := by
  obtain ⟨hstate, -⟩ := s.mailbox.tryRecv_cases
  rw [Hub.lookInto]
  rcases hr : s.mailbox.tryRecv with ⟨_ | event, mailbox⟩ <;> rw [hr] at hstate <;>
    rw [Subscriber.Fits, ← hstate] at h
  · exact ⟨rfl, h⟩
  · dsimp only
    split <;> exact ⟨rfl, h⟩

theorem Hub.at_fits {hub hub' : Hub} {i : Nat} {f : Subscriber → Option (Hub × Subscriber)}
    (h : ∀ s ∈ hub.subscribers, s.Fits capacity) (hs : hub.at_ i f = some hub')
    (hf : ∀ s next s', s.Fits capacity → f s = some (next, s') →
      next.subscribers = hub.subscribers ∧ s'.Fits capacity) :
    hub.subscribers.length ≤ hub'.subscribers.length ∧
      ∀ s ∈ hub'.subscribers, s.Fits capacity := by
  obtain ⟨s, next, s', hget, hfs, rfl⟩ := at_cases hs
  obtain ⟨hsame, hfits⟩ := hf s next s' (h s (mem_of_getElem? hget)) hfs
  rw [hsame]
  refine ⟨Nat.le_of_eq length_set.symm, fun t ht => ?_⟩
  rcases mem_or_eq_of_mem_set ht with hold | rfl
  · exact h t hold
  · exact hfits

theorem Hub.step_fits {action : HubStep} {hub hub' : Hub}
    (h : ∀ s ∈ hub.subscribers, s.Fits capacity)
    (hs : Hub.step globMatch capacity action hub = some hub') :
    hub.subscribers.length ≤ hub'.subscribers.length ∧
      ∀ s ∈ hub'.subscribers, s.Fits capacity := by
  unfold Hub.step at hs
  split at hs
  next exact_ patterns _ =>
    cases hs
    refine ⟨by simp, fun s hs => ?_⟩
    rcases mem_append.1 hs with hold | hnew
    · exact h s hold
    · rw [mem_singleton.1 hnew]
      exact ⟨rfl, Nat.zero_le _⟩
  · cases hs
    exact ⟨le_rfl, h⟩
  next generation i event sends _ =>
    refine Hub.at_fits h hs fun s next s' hfits hf => ?_
    cases hf
    exact ⟨rfl, hfits.send _⟩
  iterate 4
    · cases hs
      exact ⟨le_rfl, h⟩
  iterate 2
    · refine Hub.at_fits h hs fun s next s' hfits hf => ?_
      split at hf <;> cases hf
      exact ⟨rfl, hfits⟩
  next i _ =>
    refine Hub.at_fits h hs fun s next s' hfits hf => ?_
    split at hf
    next started current blocking hcall =>
      have hlook := @Hub.lookInto_fits capacity hub s hfits started current blocking
      rw [Option.some.inj hf] at hlook
      exact hlook
    · cases hf
  · refine Hub.at_fits h hs fun s next s' hfits hf => ?_
    split at hf <;> cases hf
    exact ⟨rfl, hfits⟩
  · cases hs

namespace House

structure Kept (capacity : Nat) (house : House) : Prop where
  fits : ∀ s ∈ house.hub.subscribers, s.Fits capacity
  once : house.gone.Nodup
  known : ∀ i ∈ house.gone, i < house.hub.subscribers.length

variable {house house' : House} {action : HouseStep} {steps : List HouseStep}

theorem Kept.step (h : house.Kept capacity)
    (hs : step globMatch capacity action house = some house') : house'.Kept capacity := by
  cases action with
  | hub action =>
    rw [House.step] at hs
    split at hs
    · cases hs
    · obtain ⟨hub, hhub, rfl⟩ := Option.map_eq_some_iff.1 hs
      obtain ⟨hle, hfits⟩ := Hub.step_fits h.fits hhub
      exact ⟨hfits, h.once, fun i hi => Nat.lt_of_lt_of_le (h.known i hi) hle⟩
  | drop i =>
    rw [House.step] at hs
    split at hs
    next hi =>
      cases hs
      exact ⟨h.fits, nodup_cons.2 ⟨hi.2, h.once⟩, forall_mem_cons.2 ⟨hi.1, h.known⟩⟩
    · cases hs

theorem Kept.records (h : house.Kept capacity) :
    house.hub.subscribers.length = house.receivers + house.gone.length := by
  have hgone : ((range house.hub.subscribers.length).filter (· ∈ house.gone)).Perm
      house.gone := by
    refine (perm_ext_iff_of_nodup (nodup_range.filter _) h.once).2 fun i => ?_
    simp only [mem_filter, mem_range, decide_eq_true_eq, and_iff_right_iff_imp]
    exact h.known i
  have hsplit := (range house.hub.subscribers.length).length_eq_countP_add_countP
    (fun i => decide (i ∈ house.gone))
  rw [length_range, countP_eq_length_filter, hgone.length_eq] at hsplit
  have hrest : house.receivers = (range house.hub.subscribers.length).countP
      (fun i => decide ¬decide (i ∈ house.gone) = true) := by
    simp [receivers]
  omega

theorem Kept.buffered_le (h : house.Kept capacity) :
    house.buffered ≤ house.hub.subscribers.length * max capacity 1 := by
  have hsum : ∀ subscribers : List Subscriber, (∀ s ∈ subscribers, s.Fits capacity) →
      (subscribers.map fun s => s.mailbox.state.items.length).sum ≤
        subscribers.length * max capacity 1 := by
    intro subscribers
    induction subscribers with
    | nil => simp
    | cons s subscribers ih =>
      intro hfits
      obtain ⟨hs, hrest⟩ := forall_mem_cons.1 hfits
      rw [map_cons, sum_cons, length_cons, Nat.succ_mul, Nat.add_comm]
      exact Nat.add_le_add (ih hrest) hs.2
  exact hsum _ h.fits

theorem kept_start : ({} : House).Kept capacity :=
  ⟨fun _ hs => absurd hs not_mem_nil, nodup_nil, fun _ hi => absurd hi not_mem_nil⟩

/-- In a run that drops at most `most` receivers, the records and the buffered events stay
bounded by the receivers that still exist and that number. -/
theorem records_bounded (most : Nat)
    (hmeet : StepsMeet (step globMatch capacity)
      (fun action house => ∀ i, action = .drop i → house.gone.length < most) steps {})
    (hrun : runSteps (step globMatch capacity) steps {} = some house) :
    house.hub.subscribers.length ≤ house.receivers + most ∧
      house.buffered ≤ house.receivers * max capacity 1 + most * max capacity 1 := by
  have hstep : ∀ (action : HouseStep) (s s' : House),
      s.Kept capacity ∧ s.gone.length ≤ most →
      (∀ i, action = .drop i → s.gone.length < most) →
      step globMatch capacity action s = some s' → s'.Kept capacity ∧ s'.gone.length ≤ most := by
    intro action s s' h hcond hs
    refine ⟨h.1.step hs, ?_⟩
    cases action with
    | hub action =>
      rw [House.step] at hs
      split at hs
      · cases hs
      · obtain ⟨hub, -, rfl⟩ := Option.map_eq_some_iff.1 hs
        exact h.2
    | drop i =>
      rw [House.step] at hs
      split at hs <;> cases hs
      exact hcond i rfl
  obtain ⟨hkept, hgone⟩ := runSteps_invariant hstep ⟨kept_start, Nat.zero_le _⟩ hmeet hrun
  have hrecords := hkept.records
  refine ⟨by omega, Nat.le_trans hkept.buffered_le ?_⟩
  rw [← Nat.add_mul]
  exact Nat.mul_le_mul_right _ (by omega)

def comeAndGo (n : Nat) : List HouseStep :=
  (range n).flatMap fun i => [.hub (.subscribe ["yard"] []), .drop i]

theorem records_bounded_comeAndGo : ∃ house, runSteps (step (fun _ _ => false) 4)
      (comeAndGo 2) {} = some house ∧ house.hub.subscribers.length ≤ house.receivers + 2 ∧
    house.buffered ≤ house.receivers * max 4 1 + 2 * max 4 1 := by
  refine ⟨_, rfl, @records_bounded (fun _ _ => false) 4 _ (comeAndGo 2) 2 ?_ rfl⟩
  exact stepsMeet_of_checkSteps (fun _ house => decide (house.gone.length < 2))
    (fun _ _ h _ _ => of_decide_eq_true h) rfl

/-- However large the constant: there is a run after which nobody listens, and more records. -/
theorem records_unbounded : ¬ ∃ constant, ∀ steps house,
    runSteps (step (fun _ _ => false) 4) steps {} = some house →
      house.hub.subscribers.length ≤ house.receivers + constant := by
  rintro ⟨constant, hbound⟩
  have hrun : ∀ n, ∃ house, runSteps (step (fun _ _ => false) 4) (comeAndGo n) {} = some house ∧
      house.hub.holder = .free ∧ house.hub.subscribers.length = n ∧
      ∀ i, i ∈ house.gone ↔ i < n := by
    intro n
    induction n with
    | zero => exact ⟨{}, rfl, rfl, rfl, by simp⟩
    | succ n ih =>
      obtain ⟨house, hrun, hfree, hlength, hgone⟩ := ih
      refine ⟨{ hub := { house.hub with subscribers := house.hub.subscribers ++
        [{ exact_ := ["yard"], patterns := [], mailbox := .channel 4 }] }
                gone := n :: house.gone }, ?_, hfree, by simp [hlength], fun i => ?_⟩
      · rw [comeAndGo, range_succ, flatMap_append, runSteps_append]
        change (runSteps _ (comeAndGo n) ({} : House)).bind _ = _
        rw [hrun]
        simp [runSteps, House.step, HubStep.receiver?, Hub.step, hfree, hlength, hgone]
      · rw [mem_cons, hgone]
        omega
  obtain ⟨house, hrun, -, hlength, hgone⟩ := hrun (constant + 1)
  have hle := hbound _ house hrun
  have hnobody : house.receivers = 0 := by
    rw [receivers, countP_eq_zero]
    intro i hi
    simpa [hgone, hlength] using hi
  omega

end House

end LatLng.Geofence
