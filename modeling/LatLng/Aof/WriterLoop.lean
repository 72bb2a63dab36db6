import LatLng.Aof.Writer

/-! The writer thread. The commands of all senders arrive in one queue; a group ends
when the request limit is reached, when nothing more arrives in time, or when a
command that is not an append comes up, which is then kept for the next cycle. -/

namespace LatLng.Aof
open Storage List

inductive WriterCommand where
  | append (request : AppendRequest)
  | snapshot (entries : List StorageEntry)
  | compact
  | close

inductive Answer where
  | append (result : Except StorageError Unit)
  | snapshot (result : Except StorageError Unit)
  | compact (result : Except StorageError CompactionResult)
  | close

def nextCommand : List WriterCommand → List WriterCommand →
    Option (WriterCommand × List WriterCommand × List WriterCommand)
  | c :: pending, receiver => some (c, pending, receiver)
  | [], c :: receiver => some (c, [], receiver)
  | [], [] => none

structure Collected where
  requests : List AppendRequest
  pending : List WriterCommand
  receiver : List WriterCommand

/-- The requests that join a group with `room` places left. `patience` is the number of
commands that arrive before the delay is over. -/
def collectMore : Nat → Nat → List WriterCommand → List WriterCommand → Collected
  | 0, _, pending, receiver => ⟨[], pending, receiver⟩
  | room + 1, patience, .append r :: pending, receiver =>
    let more := collectMore room patience pending receiver
    { more with requests := r :: more.requests }
  | _ + 1, _, c :: pending, receiver => ⟨[], c :: pending, receiver⟩
  | room + 1, patience + 1, [], .append r :: receiver =>
    let more := collectMore room patience [] receiver
    { more with requests := r :: more.requests }
  | _ + 1, _ + 1, [], c :: receiver => ⟨[], [c], receiver⟩
  | _ + 1, _, [], receiver => ⟨[], [], receiver⟩

def collectAppendRequests (first : AppendRequest) (options : AofOptions) (patience : Nat)
    (pending receiver : List WriterCommand) : Collected :=
  let more := collectMore (max options.maxRequestsPerCommitCycle 1 - 1) patience pending receiver
  { more with requests := first :: more.requests }

def respondAppendRequests (requests : List AppendRequest) (result : Except StorageError Unit) :
    List Answer :=
  requests.map fun _ => .append result

variable {pending receiver pending' receiver' : List WriterCommand}

theorem nextCommand_spec
    {c : WriterCommand} (h : nextCommand pending receiver = some (c, pending', receiver')) :
    pending ++ receiver = c :: (pending' ++ receiver') := by
  cases pending with
  | cons p ps =>
    cases h
    rfl
  | nil =>
    cases receiver with
    | nil => cases h
    | cons r rs =>
      cases h
      rfl

theorem collectMore_spec (room patience : Nat) (pending receiver : List WriterCommand) :
    (collectMore room patience pending receiver).requests.map .append ++
        ((collectMore room patience pending receiver).pending ++
          (collectMore room patience pending receiver).receiver) =
      pending ++ receiver := by
  induction room, patience, pending, receiver using collectMore.induct <;>
    simp_all [collectMore]

theorem collectAppendRequests_spec (first : AppendRequest) (options : AofOptions) (patience : Nat)
    (pending receiver : List WriterCommand) :
    (collectAppendRequests first options patience pending receiver).requests.map .append ++
        ((collectAppendRequests first options patience pending receiver).pending ++
          (collectAppendRequests first options patience pending receiver).receiver) =
      .append first :: (pending ++ receiver) := by
  have h := collectMore_spec (max options.maxRequestsPerCommitCycle 1 - 1) patience pending receiver
  rw [collectAppendRequests]
  simpa using h

theorem collectAppendRequests_length (first : AppendRequest) (options : AofOptions)
    (patience : Nat) (pending receiver : List WriterCommand) :
    (collectAppendRequests first options patience pending receiver).pending.length +
      (collectAppendRequests first options patience pending receiver).receiver.length ≤
        pending.length + receiver.length := by
  have h := congrArg length
    (collectAppendRequests_spec first options patience pending receiver)
  simp only [length_append, length_map, length_cons] at h
  have hreq : 1 ≤ (collectAppendRequests first options patience pending receiver).requests.length :=
    Nat.succ_pos _
  omega

theorem nextCommand_length
    {c : WriterCommand} (h : nextCommand pending receiver = some (c, pending', receiver')) :
    pending'.length + receiver'.length < pending.length + receiver.length := by
  have h := congrArg length (nextCommand_spec h)
  simp only [length_append, length_cons] at h
  omega

variable (deps : Deps)

/-- The loop ends when the channel is closed or after `Close`. `patience` gives the arrivals
of every cycle. -/
def runWriterLoop (options : AofOptions) (patience : Nat → Nat) (cycle : Nat) (b : Backend)
    (pending receiver : List WriterCommand) : Backend × List Answer :=
  match _h : nextCommand pending receiver with
  | none => (b, [])
  | some (.append first, pending', receiver') =>
    let group := collectAppendRequests first options (patience cycle) pending' receiver'
    let committed := commitAppendGroup deps noFaults b group.requests
    let rest := runWriterLoop options patience (cycle + 1) committed.2 group.pending group.receiver
    (rest.1, respondAppendRequests group.requests committed.1 ++ rest.2)
  | some (.snapshot entries, pending', receiver') =>
    let done := executeSnapshot deps b entries
    let rest := runWriterLoop options patience (cycle + 1) done.2 pending' receiver'
    (rest.1, .snapshot done.1 :: rest.2)
  | some (.compact, pending', receiver') =>
    let done := executeCompact deps b
    let rest := runWriterLoop options patience (cycle + 1) done.2 pending' receiver'
    (rest.1, .compact done.1 :: rest.2)
  | some (.close, _, _) => (executeClose b, [.close])
termination_by pending.length + receiver.length
decreasing_by
  · have h1 := nextCommand_length _h
    have h2 := collectAppendRequests_length first options (patience cycle) pending' receiver'
    omega
  all_goals exact nextCommand_length _h

/-! ## Cycles -/

inductive WriterCycle where
  | group (first : AppendRequest) (more : List AppendRequest)
  | snapshot (entries : List StorageEntry)
  | compact
  | close

def WriterCycle.commands : WriterCycle → List WriterCommand
  | .group first more => (first :: more).map .append
  | .snapshot entries => [.snapshot entries]
  | .compact => [.compact]
  | .close => [.close]

def writerCycles (options : AofOptions) (patience : Nat → Nat) (cycle : Nat)
    (pending receiver : List WriterCommand) : List WriterCycle :=
  match _h : nextCommand pending receiver with
  | none => []
  | some (.append first, pending', receiver') =>
    let group := collectAppendRequests first options (patience cycle) pending' receiver'
    .group first group.requests.tail ::
      writerCycles options patience (cycle + 1) group.pending group.receiver
  | some (.snapshot entries, pending', receiver') =>
    .snapshot entries :: writerCycles options patience (cycle + 1) pending' receiver'
  | some (.compact, pending', receiver') =>
    .compact :: writerCycles options patience (cycle + 1) pending' receiver'
  | some (.close, pending', receiver') =>
    .close :: writerCycles options patience (cycle + 1) pending' receiver'
termination_by pending.length + receiver.length
decreasing_by
  · have h1 := nextCommand_length _h
    have h2 := collectAppendRequests_length first options (patience cycle) pending' receiver'
    omega
  all_goals exact nextCommand_length _h

def runCycles (b : Backend) : List WriterCycle → Backend × List Answer
  | [] => (b, [])
  | .group first more :: cycles =>
    let committed := commitAppendGroup deps noFaults b (first :: more)
    let rest := runCycles committed.2 cycles
    (rest.1, respondAppendRequests (first :: more) committed.1 ++ rest.2)
  | .snapshot entries :: cycles =>
    let done := executeSnapshot deps b entries
    let rest := runCycles done.2 cycles
    (rest.1, .snapshot done.1 :: rest.2)
  | .compact :: cycles =>
    let done := executeCompact deps b
    let rest := runCycles done.2 cycles
    (rest.1, .compact done.1 :: rest.2)
  | .close :: _ => (executeClose b, [.close])

def alone : WriterCommand → WriterCycle
  | .append r => .group r []
  | .snapshot entries => .snapshot entries
  | .compact => .compact
  | .close => .close

theorem runWriterLoop_eq (options : AofOptions) (patience : Nat → Nat) (cycle : Nat) (b : Backend)
    (pending receiver : List WriterCommand) :
    runWriterLoop deps options patience cycle b pending receiver =
      runCycles deps b (writerCycles options patience cycle pending receiver) := by
  fun_induction writerCycles options patience cycle pending receiver generalizing b with
  | case1 cycle pending receiver h | case3 cycle pending receiver entries pending' receiver' h ih
  | case4 cycle pending receiver pending' receiver' h ih
  | case5 cycle pending receiver pending' receiver' h ih =>
    rw [runWriterLoop]
    split <;> simp_all [runCycles]
  | case2 cycle pending receiver first pending' receiver' h group ih =>
    have hgroup : first :: group.requests.tail = group.requests := rfl
    rw [runWriterLoop, runCycles, hgroup, ← ih]
    split <;> simp_all [group]

theorem writerCycles_commands (options : AofOptions) (patience : Nat → Nat) (cycle : Nat)
    (pending receiver : List WriterCommand) :
    (writerCycles options patience cycle pending receiver).flatMap WriterCycle.commands =
      pending ++ receiver := by
  fun_induction writerCycles options patience cycle pending receiver with
  | case1 cycle pending receiver h =>
    cases pending with
    | cons p ps => cases h
    | nil =>
      cases receiver with
      | cons r rs => cases h
      | nil => rfl
  | case2 cycle pending receiver first pending' receiver' h group ih =>
    have hgroup : first :: group.requests.tail = group.requests := rfl
    have hsplit := collectAppendRequests_spec first options (patience cycle) pending' receiver'
    rw [flatMap_cons, ih, WriterCycle.commands, hgroup, nextCommand_spec h]
    exact hsplit
  | case3 cycle pending receiver entries pending' receiver' h ih
  | case4 cycle pending receiver pending' receiver' h ih
  | case5 cycle pending receiver pending' receiver' h ih =>
    rw [flatMap_cons, ih, nextCommand_spec h]
    rfl

end LatLng.Aof
