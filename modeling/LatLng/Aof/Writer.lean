import LatLng.Lib.BufWriter
import LatLng.Aof.Load

/-! The writer thread of the append-only file: requests, group commit, snapshot,
compaction and close. One value of `Backend` is the file together with everything
the writer keeps about it. Rollback and reopening succeed; the writes of a commit
may fail at any point that `IoFaults` names. -/

namespace LatLng.Aof
open Storage Framing Bytes List

structure AofOptions where
  writerQueueLimit : Nat := 4096
  maxGroupCommitDelayMs : Nat := 1
  maxRequestsPerCommitCycle : Nat := 128
deriving DecidableEq, Repr

structure AppendRequest where
  frame : AofFrame
  entries : List StorageEntry
  wellFormed : frame.WellFormed
  frame_entries : frame.entries = entries
  increasing : Increasing entries

namespace AppendRequest

def ofEntry (entry : StorageEntry) : AppendRequest where
  frame := .entry entry
  entries := [entry]
  wellFormed := trivial
  frame_entries := rfl
  increasing := increasing_singleton entry

def ofBatch (entries : List StorageEntry) (hne : entries ≠ []) (hinc : Increasing entries) :
    AppendRequest where
  frame := .batch entries
  entries := entries
  wellFormed := hne
  frame_entries := rfl
  increasing := hinc

theorem entries_ne_nil (r : AppendRequest) : r.entries ≠ [] := by
  rw [← r.frame_entries]
  exact AofFrame.entries_ne_nil r.wellFormed

end AppendRequest

inductive ApiCall where
  | append (entry : StorageEntry)
  | appendBatch (entries : List StorageEntry)
deriving DecidableEq, Repr

/-- What a call hands to the writer thread; an empty batch hands over nothing. -/
def ApiCall.submission : ApiCall → Except StorageError (Option AppendRequest)
  | .append entry => .ok (some (.ofEntry entry))
  | .appendBatch entries =>
    if hne : entries = [] then .ok none
    else
      match h : assertStrictlyIncreasing entries with
      | .error e => .error e
      | .ok () => .ok (some (.ofBatch entries hne ((assertStrictlyIncreasing_ok entries).1 h)))

structure WriterRuntime where
  buffered : List UInt8
  durableLen : Nat
deriving DecidableEq, Repr

structure CommittedState where
  entries : List StorageEntry
  closed : Bool
deriving DecidableEq, Repr

structure Backend where
  file : List UInt8
  runtime : WriterRuntime
  committed : CommittedState
deriving DecidableEq, Repr

/-- How far the raw writes of one commit get. `spill` limits the write that makes
room in the buffer, `direct` the unbuffered write of a large payload and `flush` the
final flush; `dropWrites` is the number of bytes the old writer gets out when it is
dropped after a failure. -/
structure IoFaults where
  spill : Option Nat := none
  direct : Option Nat := none
  flush : Option Nat := none
  syncFails : Bool := false
  dropWrites : Nat := 0
  message : String := "io error"
deriving DecidableEq, Repr

def noFaults : IoFaults := {}

variable (deps : Deps)

def writeFrame (io : IoFaults) (w : BufWriter) (f : AofFrame) :
    Except StorageError Unit × BufWriter :=
  match deps.serialize f with
  | .error e => (.error (.codec e), w)
  | .ok payload =>
    match w.writeAll io.spill io.direct (toLeBytes 8 payload.length) with
    | (false, w) => (.error (.io io.message), w)
    | (true, w) =>
      match w.writeAll io.spill io.direct payload with
      | (false, w) => (.error (.io io.message), w)
      | (true, w) => (.ok (), w)

def writeAndSyncFrame (io : IoFaults) (w : BufWriter) (f : AofFrame) :
    Except StorageError Unit × BufWriter :=
  match writeFrame deps io w f with
  | (.error e, w) => (.error e, w)
  | (.ok (), w) =>
    match w.flushBuf io.flush with
    | (false, w) => (.error (.io io.message), w)
    | (true, w) => if io.syncFails then (.error (.io io.message), w) else (.ok (), w)

def encodedFrameLen (f : AofFrame) : Nat :=
  8 + match deps.serialize f with
    | .ok bytes => bytes.length
    | .error _ => 0

def rollbackFile (file : List UInt8) (len : Nat) : List UInt8 :=
  file.take len ++ replicate (len - file.length) 0

def reopenWriterRuntime (file : List UInt8) : WriterRuntime := ⟨[], file.length⟩

def validateRequests : Option StorageEntry → List AppendRequest → Except StorageError Unit
  | _, [] => .ok ()
  | last, r :: rs => do
    validateBatchAgainstLast last r.entries
    validateRequests r.entries.getLast? rs

def groupFrame : List AppendRequest → AofFrame
  | [r] => r.frame
  | rs => .group (rs.map AppendRequest.frame)

def requestEntries (rs : List AppendRequest) : List StorageEntry :=
  rs.flatMap AppendRequest.entries

def commitAppendGroup (io : IoFaults) (b : Backend) (requests : List AppendRequest) :
    Except StorageError Unit × Backend :=
  if requests = [] then (.ok (), b)
  else if b.committed.closed then (.error .closed, b)
  else
    match validateRequests b.committed.entries.getLast? requests with
    | .error e => (.error e, b)
    | .ok () =>
      let startLen := b.runtime.durableLen
      match writeAndSyncFrame deps io ⟨b.runtime.buffered, b.file⟩ (groupFrame requests) with
      | (.error e, w) =>
        -- the file is cut and reopened before the old writer is dropped
        let cut := rollbackFile w.sink startLen
        (.error e, { b with
          file := cut ++ w.dropped io.dropWrites
          runtime := reopenWriterRuntime cut })
      | (.ok (), w) =>
        (.ok (), {
          file := w.sink
          runtime := ⟨w.buffered, startLen + encodedFrameLen deps (groupFrame requests)⟩
          committed := { b.committed with
            entries := b.committed.entries ++ requestEntries requests } })

def rewrite : List StorageEntry → Except StorageError (List UInt8)
  | [] => .ok []
  | entry :: entries =>
    match deps.serialize (.entry entry) with
    | .error e => .error (.codec e)
    | .ok payload => (rewrite entries).map fun rest => frame payload ++ rest

def executeSnapshot (b : Backend) (entries : List StorageEntry) :
    Except StorageError Unit × Backend :=
  match assertStrictlyIncreasing entries with
  | .error e => (.error e, b)
  | .ok () =>
    match rewrite deps entries with
    | .error e => (.error e, b)
    | .ok file =>
      let b := { b with file := file, runtime := reopenWriterRuntime file }
      if b.committed.closed then (.error .closed, b)
      else (.ok (), { b with committed := { b.committed with entries := entries } })

def executeCompact (b : Backend) : Except StorageError CompactionResult × Backend :=
  match rewrite deps b.committed.entries with
  | .error e => (.error e, b)
  | .ok file =>
    (.ok {
      beforeEntries := b.committed.entries.length
      afterEntries := b.committed.entries.length
      beforeBytes := b.file.length
      afterBytes := file.length },
     { b with file := file, runtime := reopenWriterRuntime file })

def executeClose (b : Backend) : Backend where
  file := b.file ++ b.runtime.buffered
  runtime := ⟨[], (b.file ++ b.runtime.buffered).length⟩
  committed := { b.committed with closed := true }

/-- Opening creates a missing file. The writer starts at the end of the file, which
is not where the loader stopped when the last frame is torn. -/
def openWithOptions (file : Option (List UInt8)) : Except StorageError Backend := do
  let entries ← loadEntries deps file
  .ok {
    file := file.getD []
    runtime := reopenWriterRuntime (file.getD [])
    committed := ⟨entries, false⟩ }

def Backend.call (io : IoFaults) (b : Backend) (c : ApiCall) :
    Except StorageError Unit × Backend :=
  match c.submission with
  | .error e => (.error e, b)
  | .ok none => (.ok (), b)
  | .ok (some r) => commitAppendGroup deps io b [r]

def Backend.replay (b : Backend) : List StorageEntry := b.committed.entries

/-! ## Specifications -/

variable {deps}

theorem After.trans_entries {last : Option StorageEntry} {es new : List StorageEntry}
    (hne : es ≠ []) (hlast : After last es) (hnew : After es.getLast? new) : After last new := by
  intro l hl e he
  obtain ⟨x, hx⟩ := Option.isSome_iff_exists.1 (getLast?_isSome.2 hne)
  have h1 := hlast l hl x (mem_of_getLast? hx)
  have h2 := hnew x hx e he
  omega

theorem requestEntries_cons (r : AppendRequest) (rs : List AppendRequest) :
    requestEntries (r :: rs) = r.entries ++ requestEntries rs := flatMap_cons

theorem validateRequests_ok (last : Option StorageEntry) (rs : List AppendRequest) :
    validateRequests last rs = .ok () ↔
      Increasing (requestEntries rs) ∧ After last (requestEntries rs) := by
  induction rs generalizing last with
  | nil => simp [validateRequests, requestEntries, Increasing, After]
  | cons r rs ih =>
    have hsplit : validateRequests last (r :: rs) = .ok () ↔
        validateBatchAgainstLast last r.entries = .ok () ∧
          validateRequests r.entries.getLast? rs = .ok () := by
      rw [validateRequests]
      cases validateBatchAgainstLast last r.entries <;> simp [bind, Except.bind]
    rw [hsplit, ih, validateBatchAgainstLast_ok, requestEntries_cons,
      increasing_append_iff r.increasing]
    constructor
    · rintro ⟨⟨-, hlast⟩, hinc, hafter⟩
      refine ⟨⟨hinc, hafter⟩, fun l hl e he => ?_⟩
      rcases mem_append.1 he with her | hes
      · exact hlast l hl e her
      · exact After.trans_entries r.entries_ne_nil hlast hafter l hl e hes
    · rintro ⟨⟨hinc, hafter⟩, hlast⟩
      exact ⟨⟨r.increasing, fun l hl e he => hlast l hl e (mem_append_left _ he)⟩,
        hinc, hafter⟩

theorem framesWellFormed_map_frame (rs : List AppendRequest) :
    FramesWellFormed (rs.map AppendRequest.frame) := by
  rw [framesWellFormed_iff]
  intro f hf
  obtain ⟨r, -, rfl⟩ := mem_map.1 hf
  exact r.wellFormed

theorem framesEntries_map_frame (rs : List AppendRequest) :
    framesEntries (rs.map AppendRequest.frame) = requestEntries rs := by
  induction rs with
  | nil => rfl
  | cons r rs ih =>
    rw [map_cons, framesEntries, ih, r.frame_entries, requestEntries_cons]

variable {rs : List AppendRequest}

theorem groupFrame_wellFormed (hne : rs ≠ []) : (groupFrame rs).WellFormed := by
  match rs, hne with
  | [r], _ => exact r.wellFormed
  | r :: r' :: rs, _ => exact ⟨by simp, framesWellFormed_map_frame _⟩

theorem groupFrame_entries (rs : List AppendRequest) :
    (groupFrame rs).entries = requestEntries rs := by
  match rs with
  | [] => rfl
  | [r] => simpa [groupFrame, requestEntries] using r.frame_entries
  | r :: r' :: rs =>
    rw [groupFrame, AofFrame.entries, framesEntries_map_frame]
    simp

variable {p : List UInt8}

theorem writeAndSyncFrame_noFaults {f : AofFrame} (h : deps.serialize f = .ok p)
    (file : List UInt8) :
    writeAndSyncFrame deps noFaults ⟨[], file⟩ f = (.ok (), ⟨[], file ++ frame p⟩) := by
  obtain ⟨h1, h1'⟩ := BufWriter.writeAll_none (toLeBytes 8 p.length) ⟨[], file⟩
  cases hw : BufWriter.writeAll none none (toLeBytes 8 p.length) ⟨[], file⟩ with
  | mk ok w =>
    rw [hw] at h1 h1'
    obtain ⟨h2, h2'⟩ := BufWriter.writeAll_none p w
    cases hw2 : BufWriter.writeAll none none p w with
    | mk ok2 w2 =>
      rw [hw2] at h2 h2'
      subst h1 h2
      simp only [writeAndSyncFrame, writeFrame, h, noFaults, hw, hw2, BufWriter.flushBuf_none]
      simp only [Bool.false_eq_true, if_false, h2', h1', frame, append_nil, append_assoc]

variable {b : Backend}

theorem commitAppendGroup_rejected {io : IoFaults}
    {e : StorageError} (hne : rs ≠ []) (hopen : b.committed.closed = false)
    (hv : validateRequests b.committed.entries.getLast? rs = .error e) :
    commitAppendGroup deps io b rs = (.error e, b) := by
  simp [commitAppendGroup, hne, hopen, hv]

theorem commitAppendGroup_noFaults
    (hne : rs ≠ []) (hopen : b.committed.closed = false) (hbuf : b.runtime.buffered = [])
    (hv : validateRequests b.committed.entries.getLast? rs = .ok ())
    (hp : deps.serialize (groupFrame rs) = .ok p) :
    commitAppendGroup deps noFaults b rs = (.ok (), {
      file := b.file ++ frame p
      runtime := ⟨[], b.runtime.durableLen + (frame p).length⟩
      committed := ⟨b.committed.entries ++ requestEntries rs, false⟩ }) := by
  simp [commitAppendGroup, hne, hopen, hv, hbuf, writeAndSyncFrame_noFaults hp, encodedFrameLen, hp]

/-! ## The clean invariant -/

structure Settled (b : Backend) : Prop where
  buffered : b.runtime.buffered = []
  durable : b.runtime.durableLen = b.file.length
  isOpen : b.committed.closed = false

/-- The file consists of complete frames that carry exactly the committed entries. -/
structure Clean (deps : Deps) (b : Backend) (fs : List AofFrame) : Prop extends Settled b where
  encodes : Encodes deps fs b.file
  valid : ValidFrames fs
  committed : b.committed.entries = framesEntries fs

variable {b : Backend} {fs : List AofFrame}

theorem Clean.increasing (h : Clean deps b fs) : Increasing b.committed.entries := by
  rw [h.committed]
  exact h.valid.increasing

theorem Clean.loadEntries (h : Clean deps b fs) :
    Aof.loadEntries deps (some b.file) = .ok b.committed.entries := by
  rw [h.committed]
  exact loadEntries_complete h.encodes h.valid

theorem ValidFrames.snoc (h : ValidFrames fs) {f : AofFrame}
    (hf : f.WellFormed) (hinc : Increasing (framesEntries fs ++ f.entries)) :
    ValidFrames (fs ++ [f]) := by
  constructor
  · rw [framesWellFormed_iff] at *
    intro g hg
    rcases mem_append.1 hg with hg | hg
    · exact (framesWellFormed_iff _).1 h.wellFormed g hg
    · rw [mem_singleton.1 hg]
      exact hf
  · simpa using hinc

theorem Clean.commit {fs : List AofFrame} (h : Clean deps b fs) (hne : rs ≠ [])
    (hv : validateRequests b.committed.entries.getLast? rs = .ok ())
    (hp : deps.serialize (groupFrame rs) = .ok p) :
    (commitAppendGroup deps noFaults b rs).1 = .ok () ∧
      Clean deps (commitAppendGroup deps noFaults b rs).2 (fs ++ [groupFrame rs]) ∧
      (commitAppendGroup deps noFaults b rs).2.committed.entries =
        b.committed.entries ++ requestEntries rs ∧
      (commitAppendGroup deps noFaults b rs).2.file = b.file ++ frame p := by
  have hinc : Increasing (b.committed.entries ++ requestEntries rs) :=
    (increasing_append_iff h.increasing).2 ((validateRequests_ok _ _).1 hv)
  rw [commitAppendGroup_noFaults hne h.isOpen h.buffered hv hp]
  refine ⟨rfl, ⟨⟨rfl, by simp [h.durable], rfl⟩, ?_, ?_, ?_⟩, rfl, rfl⟩
  · exact h.encodes.append (encodes_singleton hp)
  · apply h.valid.snoc (groupFrame_wellFormed hne)
    rwa [groupFrame_entries, ← h.committed]
  · simp [h.committed, groupFrame_entries]

variable (deps) in
theorem Settled.commit_cases (h : Settled b) (hne : rs ≠ []) :
    (∃ p, deps.serialize (groupFrame rs) = .ok p ∧
      validateRequests b.committed.entries.getLast? rs = .ok ()) ∨
    ∃ e, commitAppendGroup deps noFaults b rs = (.error e, b) := by
  cases hv : validateRequests b.committed.entries.getLast? rs with
  | error e => exact .inr ⟨e, commitAppendGroup_rejected hne h.isOpen hv⟩
  | ok u =>
    cases hs : deps.serialize (groupFrame rs) with
    | ok p => exact .inl ⟨p, rfl, rfl⟩
    | error e =>
      refine .inr ⟨.codec e, ?_⟩
      obtain ⟨file, ⟨buffered, durableLen⟩, committed⟩ := b
      have hbuf : buffered = [] := h.buffered
      have hdur : durableLen = file.length := h.durable
      have hclosed : committed.closed = false := h.isOpen
      subst hbuf hdur
      have hroll : rollbackFile file file.length = file := by simp [rollbackFile]
      simp [commitAppendGroup, hne, hclosed, hv, writeAndSyncFrame, writeFrame, hs, hroll,
        reopenWriterRuntime, BufWriter.dropped]

structure CommitGroup where
  requests : List AppendRequest
  nonempty : requests ≠ []

def CommitGroup.entries (g : CommitGroup) : List StorageEntry := requestEntries g.requests

def emptyBackend : Backend := ⟨[], ⟨[], 0⟩, ⟨[], false⟩⟩

theorem clean_emptyBackend : Clean deps emptyBackend [] where
  buffered := rfl
  durable := rfl
  isOpen := rfl
  encodes := encodes_nil
  valid := ⟨trivial, increasing_nil⟩
  committed := rfl

/-! ## Runs of calls -/

def ApiCall.entries : ApiCall → List StorageEntry
  | .append entry => [entry]
  | .appendBatch entries => entries

def ApiCall.InRange (c : ApiCall) : Prop :=
  ∀ e ∈ c.entries, e.sequence < 2 ^ 64 ∧ e.timestampNs < 2 ^ 64

theorem ApiCall.submission_entries {c : ApiCall} {o : Option AppendRequest}
    (h : c.submission = .ok o) : o.elim [] AppendRequest.entries = c.entries := by
  cases c with
  | append e =>
    obtain rfl := Except.ok.inj h
    rfl
  | appendBatch es =>
    simp only [submission] at h
    split_ifs at h with hne
    · obtain rfl := Except.ok.inj h
      exact hne.symm
    · split at h
      · cases h
      · obtain rfl := Except.ok.inj h
        rfl

variable (deps) in
theorem Settled.call_cases (h : Settled b) (c : ApiCall) :
    (c.entries = [] ∧ b.call deps noFaults c = (.ok (), b)) ∨
    (∃ e, b.call deps noFaults c = (.error e, b)) ∨
    ∃ r p, r.entries = c.entries ∧ deps.serialize (groupFrame [r]) = .ok p ∧
      validateRequests b.committed.entries.getLast? [r] = .ok () ∧
      b.call deps noFaults c = commitAppendGroup deps noFaults b [r] := by
  cases hs : c.submission with
  | error e => exact .inr (.inl ⟨e, by rw [Backend.call, hs]⟩)
  | ok o =>
    have hentries := ApiCall.submission_entries hs
    cases o with
    | none => exact .inl ⟨hentries.symm, by rw [Backend.call, hs]⟩
    | some r =>
      have hcall : b.call deps noFaults c = commitAppendGroup deps noFaults b [r] := by
        rw [Backend.call, hs]
      rcases h.commit_cases deps (cons_ne_nil r []) with ⟨p, hp, hv⟩ | ⟨e, he⟩
      · exact .inr (.inr ⟨r, p, hentries, hp, hv, hcall⟩)
      · exact .inr (.inl ⟨e, hcall.trans he⟩)

variable (deps) in
def runCalls (b : Backend) : List ApiCall → Backend × List StorageEntry
  | [] => (b, [])
  | c :: cs =>
    match b.call deps noFaults c with
    | (.ok (), b') => ((runCalls b' cs).1, c.entries ++ (runCalls b' cs).2)
    | (.error _, b') => runCalls b' cs

theorem Clean.runCalls (h : Clean deps b fs) (cs : List ApiCall) :
    ∃ fs', Clean deps (runCalls deps b cs).1 fs' ∧
      (Aof.runCalls deps b cs).1.committed.entries =
        b.committed.entries ++ (Aof.runCalls deps b cs).2 := by
  induction cs generalizing b fs with
  | nil => exact ⟨fs, h, by simp [Aof.runCalls]⟩
  | cons c cs ih =>
    rcases h.call_cases deps c with ⟨hnil, hc⟩ | ⟨e, hc⟩ | ⟨r, p, hr, hp, hv, hc⟩
    · simpa only [Aof.runCalls, hc, hnil, nil_append] using ih h
    · simpa only [Aof.runCalls, hc] using ih h
    · obtain ⟨hok, hclean, hcommitted, -⟩ := h.commit (cons_ne_nil r []) hv hp
      rw [← hc] at hok hclean hcommitted
      cases hcall : b.call deps noFaults c with
      | mk res b' =>
        rw [hcall] at hok hclean hcommitted
        subst hok
        obtain ⟨fs', hfs', hrun⟩ := ih hclean
        refine ⟨fs', ?_, ?_⟩
        · simpa only [Aof.runCalls, hcall] using hfs'
        · simp only [Aof.runCalls, hcall]
          rw [hrun, hcommitted, ← hr]
          simp [requestEntries]

theorem Settled.runCalls_eq (h : Settled b) {cs : List ApiCall}
    (hnil : (runCalls deps b cs).2 = []) : (runCalls deps b cs).1 = b := by
  induction cs with
  | nil => rfl
  | cons c cs ih =>
    rcases h.call_cases deps c with ⟨-, hc⟩ | ⟨e, hc⟩ | ⟨r, p, hr, hp, hv, hc⟩
    · simp only [runCalls, hc, append_eq_nil_iff] at hnil ⊢
      exact ih hnil.2
    · simp only [runCalls, hc] at hnil ⊢
      exact ih hnil
    · rw [commitAppendGroup_noFaults (cons_ne_nil r []) h.isOpen h.buffered hv hp] at hc
      simp only [runCalls, hc, append_eq_nil_iff, ← hr] at hnil
      exact absurd hnil.1 r.entries_ne_nil

end LatLng.Aof
