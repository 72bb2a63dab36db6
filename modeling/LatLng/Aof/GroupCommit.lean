import LatLng.Aof.WriterLoop

/-! Group commit against processing every command alone. The requests of a group share
one validation and one answer, so a group is transparent only when its requests stand or
fall together. -/

namespace LatLng.Aof
open Storage List WriterCycle

variable {deps : Deps}

def Answer.appendVerdict : Answer → Option Bool
  | .append result => some result.isOk
  | _ => none

def appendVerdicts (answers : List Answer) : List Bool := answers.filterMap Answer.appendVerdict

structure SameOutcome (deps : Deps) (x y : Backend × List Answer) : Prop where
  answers : appendVerdicts x.2 = appendVerdicts y.2
  committed : x.1.committed.entries = y.1.committed.entries
  decoded : loadEntries deps (some x.1.file) = loadEntries deps (some y.1.file)

/-- The requests of a group continue the log together, or each of them alone is rejected. -/
def WriterCycle.Uniform (b : Backend) : WriterCycle → Prop
  | .group first more =>
    validateRequests b.committed.entries.getLast? (first :: more) = .ok () ∨
      ∀ r ∈ first :: more, validateBatchAgainstLast b.committed.entries.getLast? r.entries ≠ .ok ()
  | _ => True

variable (deps) in
def UniformRun (b : Backend) : List WriterCycle → Prop
  | [] => True
  | .close :: _ => True
  | cycle :: cycles => cycle.Uniform b ∧ UniformRun (runCycles deps b [cycle]).1 cycles

def WriterCommand.request : WriterCommand → Option AppendRequest
  | .append r => some r
  | _ => none

def WriterCommand.entries : WriterCommand → List StorageEntry
  | .append r => r.entries
  | .snapshot entries => entries
  | _ => []

structure Encodable (deps : Deps) (stored : List StorageEntry) (queue : List WriterCommand) :
    Prop where
  groups : ∀ rs, rs ≠ [] → rs.Sublist (queue.filterMap WriterCommand.request) →
    ∃ p, deps.serialize (groupFrame rs) = .ok p
  stored : ∀ e ∈ stored, ∃ p, deps.serialize (.entry e) = .ok p
  queued : ∀ c ∈ queue, ∀ e ∈ c.entries, ∃ p, deps.serialize (.entry e) = .ok p

theorem Encodable.mono {stored stored' : List StorageEntry} {queue queue' : List WriterCommand}
    (h : Encodable deps stored queue) (hq : queue'.Sublist queue)
    (hs : ∀ e ∈ stored', e ∈ stored ∨ ∃ c ∈ queue, e ∈ c.entries) :
    Encodable deps stored' queue' := by
  refine ⟨fun rs hne hsub => ?_, fun e he => ?_, fun c hc e he => ?_⟩
  · exact h.groups rs hne (hsub.trans (hq.filterMap _))
  · rcases hs e he with hold | ⟨c, hc, hce⟩
    · exact h.stored e hold
    · exact h.queued c hc e hce
  · exact h.queued c (hq.subset hc) e he

/-! ## Steps -/

theorem validateRequests_singleton (last : Option StorageEntry) (r : AppendRequest) :
    validateRequests last [r] = validateBatchAgainstLast last r.entries := by
  rw [validateRequests]
  cases validateBatchAgainstLast last r.entries <;> rfl

theorem getLast?_append_entries (es : List StorageEntry) (r : AppendRequest) :
    (es ++ r.entries).getLast? = r.entries.getLast? := by
  rw [getLast?_append]
  obtain ⟨x, hx⟩ := Option.isSome_iff_exists.1 (getLast?_isSome.2 r.entries_ne_nil)
  rw [hx]
  rfl

theorem appendVerdicts_append (as bs : List Answer) :
    appendVerdicts (as ++ bs) = appendVerdicts as ++ appendVerdicts bs := filterMap_append

theorem appendVerdicts_respond (rs : List AppendRequest) (result : Except StorageError Unit) :
    appendVerdicts (respondAppendRequests rs result) = replicate rs.length result.isOk := by
  induction rs with
  | nil => rfl
  | cons r rs ih =>
    rw [respondAppendRequests, map_cons] at *
    rw [appendVerdicts, filterMap_cons, Answer.appendVerdict] at *
    simp only [length_cons, replicate_succ]
    congr 1

theorem runCycles_group (b : Backend) (r : AppendRequest) (rs : List AppendRequest)
    (cycles : List WriterCycle) :
    runCycles deps b (.group r rs :: cycles) =
      ((runCycles deps (commitAppendGroup deps noFaults b (r :: rs)).2 cycles).1,
        respondAppendRequests (r :: rs) (commitAppendGroup deps noFaults b (r :: rs)).1 ++
          (runCycles deps (commitAppendGroup deps noFaults b (r :: rs)).2 cycles).2) := rfl

theorem runCycles_serial_append (b : Backend) (rs : List AppendRequest)
    (cycles : List WriterCycle) :
    runCycles deps b (rs.map (group · []) ++ cycles) =
      ((runCycles deps (runCycles deps b (rs.map (group · []))).1 cycles).1,
        (runCycles deps b (rs.map (group · []))).2 ++
          (runCycles deps (runCycles deps b (rs.map (group · []))).1 cycles).2) := by
  induction rs generalizing b with
  | nil => rfl
  | cons r rs ih =>
    rw [map_cons, cons_append, runCycles_group, runCycles_group, ih]
    simp only [append_assoc]

theorem appendVerdicts_serial_length (b : Backend) (rs : List AppendRequest) :
    (appendVerdicts (runCycles deps b (rs.map (group · []))).2).length = rs.length := by
  induction rs generalizing b with
  | nil => rfl
  | cons r rs ih =>
    rw [map_cons, runCycles_group, appendVerdicts_append, appendVerdicts_respond,
      length_append, ih]
    rw [length_replicate, length_cons, length_cons, length_nil, Nat.add_comm]

variable {b : Backend} {fs : List AofFrame}

theorem serial_accepted (h : Clean deps b fs)
    {rs : List AppendRequest} (henc : ∀ r ∈ rs, ∃ p, deps.serialize (groupFrame [r]) = .ok p)
    (hv : validateRequests b.committed.entries.getLast? rs = .ok ()) :
    appendVerdicts (runCycles deps b (rs.map (group · []))).2 =
        replicate rs.length true ∧
      (∃ fs', Clean deps (runCycles deps b (rs.map (group · []))).1 fs') ∧
      (runCycles deps b (rs.map (group · []))).1.committed.entries =
        b.committed.entries ++ requestEntries rs := by
  induction rs generalizing b fs with
  | nil => exact ⟨rfl, ⟨fs, h⟩, by simp [runCycles, requestEntries]⟩
  | cons r rs ih =>
    obtain ⟨hinc, hafter⟩ := (validateRequests_ok _ _).1 hv
    have hr : validateRequests b.committed.entries.getLast? [r] = .ok () := by
      rw [validateRequests_singleton, validateBatchAgainstLast_ok]
      refine ⟨r.increasing, fun l hl e he => hafter l hl e ?_⟩
      exact mem_append_left _ he
    obtain ⟨p, hp⟩ := henc r mem_cons_self
    obtain ⟨hok, hclean, hcommitted, -⟩ := h.commit (cons_ne_nil r []) hr hp
    have hentries : requestEntries [r] = r.entries := by simp [requestEntries]
    rw [hentries] at hcommitted
    have hrest : validateRequests (commitAppendGroup deps noFaults b [r]).2.committed.entries.getLast?
        rs = .ok () := by
      rw [hcommitted, getLast?_append_entries, validateRequests_ok]
      exact (increasing_append_iff r.increasing).1 hinc
    obtain ⟨hverdicts, hfs', hstored⟩ :=
      ih hclean (fun x hx => henc x (mem_cons_of_mem _ hx)) hrest
    rw [map_cons, runCycles_group]
    refine ⟨?_, hfs', ?_⟩
    · rw [appendVerdicts_append, appendVerdicts_respond, hverdicts, hok]
      rfl
    · rw [hstored, hcommitted, requestEntries_cons, append_assoc]

theorem serial_rejected (hopen : b.committed.closed = false) {rs : List AppendRequest}
    (hrej : ∀ r ∈ rs, validateBatchAgainstLast b.committed.entries.getLast? r.entries ≠ .ok ()) :
    appendVerdicts (runCycles deps b (rs.map (group · []))).2 =
        replicate rs.length false ∧
      (runCycles deps b (rs.map (group · []))).1 = b := by
  induction rs with
  | nil => exact ⟨rfl, rfl⟩
  | cons r rs ih =>
    obtain ⟨hr, hrs⟩ := forall_mem_cons.1 hrej
    obtain ⟨hverdicts, hstate⟩ := ih hrs
    rw [← validateRequests_singleton] at hr
    cases hv : validateRequests b.committed.entries.getLast? [r] with
    | ok u => exact absurd hv hr
    | error e =>
      have hcommit := @commitAppendGroup_rejected deps [r] b noFaults e (cons_ne_nil r []) hopen hv
      rw [map_cons, runCycles_group, hcommit]
      refine ⟨?_, hstate⟩
      rw [appendVerdicts_append, appendVerdicts_respond, hverdicts]
      rfl

theorem serial_some_accepted (h : Clean deps b fs)
    {rs : List AppendRequest} (henc : ∀ r ∈ rs, ∃ p, deps.serialize (groupFrame [r]) = .ok p)
    {r : AppendRequest} (hmem : r ∈ rs)
    (hr : validateBatchAgainstLast b.committed.entries.getLast? r.entries = .ok ()) :
    true ∈ appendVerdicts (runCycles deps b (rs.map (group · []))).2 := by
  induction rs with
  | nil => cases hmem
  | cons x rs ih =>
    rw [map_cons, runCycles_group, appendVerdicts_append, appendVerdicts_respond]
    cases hv : validateRequests b.committed.entries.getLast? [x] with
    | ok u =>
      obtain ⟨p, hp⟩ := henc x mem_cons_self
      obtain ⟨hok, -, -, -⟩ := h.commit (cons_ne_nil x []) hv hp
      rw [hok]
      exact mem_append_left _ (mem_singleton_self true)
    | error e =>
      rw [commitAppendGroup_rejected (cons_ne_nil x []) h.isOpen hv]
      apply mem_append_right
      apply ih (fun y hy => henc y (mem_cons_of_mem _ hy))
      rcases mem_cons.1 hmem with rfl | hrs
      · rw [validateRequests_singleton, hr] at hv
        cases hv
      · exact hrs

/-! ## Rewriting the file -/

theorem framesEntries_map_entry (es : List StorageEntry) :
    framesEntries (es.map AofFrame.entry) = es := by
  induction es with
  | nil => rfl
  | cons e es ih => rw [map_cons, framesEntries, ih, AofFrame.entries, singleton_append]

variable {es : List StorageEntry}

theorem validFrames_map_entry (h : Increasing es) : ValidFrames (es.map AofFrame.entry) := by
  constructor
  · rw [framesWellFormed_iff]
    intro f hf
    obtain ⟨e, -, rfl⟩ := mem_map.1 hf
    exact trivial
  · rwa [framesEntries_map_entry]

theorem rewrite_encodes (henc : ∀ e ∈ es, ∃ p, deps.serialize (.entry e) = .ok p) :
    ∃ file, rewrite deps es = .ok file ∧ Encodes deps (es.map AofFrame.entry) file := by
  induction es with
  | nil => exact ⟨[], rfl, encodes_nil⟩
  | cons e es ih =>
    obtain ⟨⟨p, hp⟩, hes⟩ := forall_mem_cons.1 henc
    obtain ⟨file, hfile, hencodes⟩ := ih hes
    refine ⟨Framing.frame p ++ file, ?_, (encodes_singleton hp).append hencodes⟩
    rw [rewrite, hp, hfile]
    rfl

theorem Clean.snapshot_cases (h : Clean deps b fs)
    (henc : ∀ e ∈ es, ∃ p, deps.serialize (.entry e) = .ok p) :
    (¬ Increasing es ∧ (executeSnapshot deps b es).2 = b) ∨
      (Increasing es ∧ (executeSnapshot deps b es).2.committed.entries = es ∧
        Clean deps (executeSnapshot deps b es).2 (es.map AofFrame.entry)) := by
  unfold executeSnapshot
  cases ha : assertStrictlyIncreasing es with
  | error e =>
    refine .inl ⟨fun hinc => ?_, rfl⟩
    rw [(assertStrictlyIncreasing_ok es).2 hinc] at ha
    cases ha
  | ok u =>
    have hinc := (assertStrictlyIncreasing_ok es).1 ha
    obtain ⟨file, hfile, hencodes⟩ := rewrite_encodes henc
    simp only [hfile, h.isOpen, Bool.false_eq_true, if_false]
    exact .inr ⟨hinc, trivial, ⟨⟨rfl, rfl, rfl⟩, hencodes, validFrames_map_entry hinc,
      (framesEntries_map_entry es).symm⟩⟩

theorem Clean.compact (h : Clean deps b fs)
    (henc : ∀ e ∈ b.committed.entries, ∃ p, deps.serialize (.entry e) = .ok p) :
    (executeCompact deps b).2.committed = b.committed ∧
      Clean deps (executeCompact deps b).2 (b.committed.entries.map AofFrame.entry) := by
  obtain ⟨file, hfile, hencodes⟩ := rewrite_encodes henc
  unfold executeCompact
  simp only [hfile]
  exact ⟨trivial, ⟨⟨rfl, rfl, h.isOpen⟩, hencodes, validFrames_map_entry h.increasing,
    (framesEntries_map_entry _).symm⟩⟩

/-! ## Transparency -/

theorem sameOutcome_append_iff {x y : Backend × List Answer} {as bs : List Answer}
    (hlen : (appendVerdicts as).length = (appendVerdicts bs).length) :
    SameOutcome deps (x.1, as ++ x.2) (y.1, bs ++ y.2) ↔
      appendVerdicts as = appendVerdicts bs ∧ SameOutcome deps x y := by
  constructor
  · intro h
    have hanswers := h.answers
    rw [appendVerdicts_append, appendVerdicts_append] at hanswers
    obtain ⟨hfirst, hrest⟩ := append_inj hanswers hlen
    exact ⟨hfirst, hrest, h.committed, h.decoded⟩
  · rintro ⟨hfirst, h⟩
    refine ⟨?_, h.committed, h.decoded⟩
    rw [appendVerdicts_append, appendVerdicts_append, hfirst, h.answers]

theorem sameOutcome_cons_iff {x y : Backend × List Answer} {a a' : Answer}
    (ha : a.appendVerdict = none) (ha' : a'.appendVerdict = none) :
    SameOutcome deps (x.1, a :: x.2) (y.1, a' :: y.2) ↔ SameOutcome deps x y := by
  have h := @sameOutcome_append_iff deps x y [a] [a'] (by simp [appendVerdicts, ha, ha'])
  simpa [appendVerdicts, ha, ha'] using h

theorem sameOutcome_of_clean {b' : Backend} {fs' : List AofFrame} (h : Clean deps b fs)
    (h' : Clean deps b' fs') (heq : b.committed.entries = b'.committed.entries)
    (answers : List Answer) : SameOutcome deps (b, answers) (b', answers) where
  answers := rfl
  committed := heq
  decoded := by rw [h.loadEntries, h'.loadEntries, heq]

variable (deps) in
/-- Two clean writers with the same entries, one working through the cycles and one through
their commands one by one, end with the same outcome exactly when every group is uniform. -/
def TransparentIff (cycles : List WriterCycle) : Prop :=
  ∀ {b b' : Backend} {fs fs' : List AofFrame}, Clean deps b fs → Clean deps b' fs' →
    b.committed.entries = b'.committed.entries →
    Encodable deps b.committed.entries (cycles.flatMap WriterCycle.commands) →
    (SameOutcome deps (runCycles deps b cycles)
        (runCycles deps b' ((cycles.flatMap WriterCycle.commands).map alone)) ↔
      UniformRun deps b cycles)

theorem sublist_cons_commands (cycle : WriterCycle) (cycles : List WriterCycle) :
    (cycles.flatMap commands).Sublist
      ((cycle :: cycles).flatMap commands) := by
  exact sublist_append_right _ _

theorem requests_sublist (first : AppendRequest) (more : List AppendRequest)
    (cycles : List WriterCycle) :
    (first :: more).Sublist (((group first more :: cycles).flatMap
      commands).filterMap WriterCommand.request) := by
  have hsame : (group first more).commands.filterMap WriterCommand.request =
      first :: more := by
    simp [commands, WriterCommand.request, filterMap_map, Function.comp_def]
  rw [flatMap_cons, filterMap_append, hsame]
  exact sublist_append_left _ _

variable {cycles : List WriterCycle}

theorem mem_queued_of_mem_group {first : AppendRequest} {more : List AppendRequest}
    {e : StorageEntry} (he : e ∈ requestEntries (first :: more)) :
    ∃ c ∈ (group first more :: cycles).flatMap commands,
      e ∈ c.entries := by
  obtain ⟨r, hr, her⟩ := mem_flatMap.1 he
  refine ⟨.append r, ?_, her⟩
  exact mem_append_left _ (mem_map_of_mem hr)

theorem transparentIff_group (first : AppendRequest) (more : List AppendRequest)
    (ih : TransparentIff deps cycles) : TransparentIff deps (.group first more :: cycles) := by
  intro b b' fs fs' h h' heq henc
  have htail := sublist_cons_commands (.group first more) cycles
  have hrequests := requests_sublist first more cycles
  have hserial : ((group first more :: cycles).flatMap commands).map alone =
      (first :: more).map (group · []) ++
        (cycles.flatMap commands).map alone := by
    simp [commands, alone, Function.comp_def]
  have hsingles : ∀ r ∈ first :: more, ∃ p, deps.serialize (groupFrame [r]) = .ok p := by
    intro r hr
    exact henc.groups [r] (cons_ne_nil r []) ((singleton_sublist.2 hr).trans hrequests)
  have hlen : (appendVerdicts (respondAppendRequests (first :: more)
      (commitAppendGroup deps noFaults b (first :: more)).1)).length =
        (appendVerdicts (runCycles deps b' ((first :: more).map (group · []))).2).length := by
    rw [appendVerdicts_respond, appendVerdicts_serial_length, length_replicate]
  have hstep : UniformRun deps b (.group first more :: cycles) ↔
      (group first more).Uniform b ∧
        UniformRun deps (commitAppendGroup deps noFaults b (first :: more)).2 cycles := Iff.rfl
  rw [hserial, runCycles_group, runCycles_serial_append, sameOutcome_append_iff hlen,
    appendVerdicts_respond, hstep]
  cases hv : validateRequests b.committed.entries.getLast? (first :: more) with
  | ok u =>
    obtain ⟨p, hp⟩ := henc.groups _ (cons_ne_nil first more) hrequests
    obtain ⟨hok, hclean, hcommitted, -⟩ := h.commit (cons_ne_nil first more) hv hp
    obtain ⟨hverdicts, ⟨gs, hclean'⟩, hcommitted'⟩ := serial_accepted h' hsingles (heq ▸ hv)
    rw [hverdicts, hok]
    have henc' : Encodable deps (commitAppendGroup deps noFaults b (first :: more)).2.committed.entries
        (cycles.flatMap commands) := by
      apply henc.mono htail
      intro e he
      rw [hcommitted] at he
      rcases mem_append.1 he with hold | hnew
      · exact .inl hold
      · exact .inr (mem_queued_of_mem_group hnew)
    have hrest := ih hclean hclean' (by rw [hcommitted, hcommitted', heq]) henc'
    exact and_congr (iff_of_true rfl (.inl hv)) hrest
  | error e =>
    rw [commitAppendGroup_rejected (cons_ne_nil first more) h.isOpen hv]
    by_cases hall : ∀ r ∈ first :: more,
        validateBatchAgainstLast b.committed.entries.getLast? r.entries ≠ .ok ()
    · obtain ⟨hverdicts, hstate⟩ := @serial_rejected deps b' h'.isOpen (first :: more) (heq ▸ hall)
      rw [hverdicts, hstate]
      have hrest := ih h h' heq (henc.mono htail fun e he => .inl he)
      exact and_congr (iff_of_true rfl (.inr hall)) hrest
    · -- one request alone would be accepted, but the group fails as a whole
      refine iff_of_false (fun hsame => ?_) (fun hu => ?_)
      · push Not at hall
        obtain ⟨r, hr, hrok⟩ := hall
        have htrue := serial_some_accepted h' hsingles hr (heq ▸ hrok)
        rw [← hsame.1] at htrue
        cases eq_of_mem_replicate htrue
      · rcases hu.1 with hok | hrej
        · rw [hv] at hok
          cases hok
        · exact hall hrej

theorem transparentIff_snapshot (es : List StorageEntry)
    (ih : TransparentIff deps cycles) : TransparentIff deps (.snapshot es :: cycles) := by
  intro b b' fs fs' h h' heq henc
  have htail := sublist_cons_commands (.snapshot es) cycles
  have hes : ∀ e ∈ es, ∃ p, deps.serialize (.entry e) = .ok p :=
    henc.queued (.snapshot es) (by simp [commands])
  have hstep : UniformRun deps b (.snapshot es :: cycles) ↔
      UniformRun deps (executeSnapshot deps b es).2 cycles := and_iff_right trivial
  rw [hstep]
  change SameOutcome deps (_, _ :: _) (_, _ :: _) ↔ _
  rw [sameOutcome_cons_iff rfl rfl]
  rcases h.snapshot_cases hes with ⟨hno, hsame⟩ | ⟨hinc, hentries, hclean⟩
  · rcases h'.snapshot_cases hes with ⟨-, hsame'⟩ | ⟨hinc, -⟩
    · rw [hsame, hsame']
      exact ih h h' heq (henc.mono htail fun e he => .inl he)
    · exact absurd hinc hno
  · rcases h'.snapshot_cases hes with ⟨hno, -⟩ | ⟨-, hentries', hclean'⟩
    · exact absurd hinc hno
    · apply ih hclean hclean' (hentries.trans hentries'.symm)
      rw [hentries]
      exact henc.mono htail fun e he => .inr ⟨.snapshot es, by simp [commands], he⟩

theorem transparentIff_compact (ih : TransparentIff deps cycles) :
    TransparentIff deps (.compact :: cycles) := by
  intro b b' fs fs' h h' heq henc
  have hstep : UniformRun deps b (.compact :: cycles) ↔
      UniformRun deps (executeCompact deps b).2 cycles := and_iff_right trivial
  rw [hstep]
  change SameOutcome deps (_, _ :: _) (_, _ :: _) ↔ _
  rw [sameOutcome_cons_iff rfl rfl]
  obtain ⟨hsame, hclean⟩ := h.compact henc.stored
  obtain ⟨hsame', hclean'⟩ := h'.compact (heq ▸ henc.stored)
  apply ih hclean hclean' (by rw [hsame, hsame', heq])
  rw [hsame]
  exact henc.mono (sublist_cons_commands .compact cycles) fun e he => .inl he

theorem transparentIff_close (cycles : List WriterCycle) :
    TransparentIff deps (.close :: cycles) := by
  intro b b' fs fs' h h' heq _
  refine iff_of_true ⟨rfl, heq, ?_⟩ trivial
  change loadEntries deps (some (b.file ++ b.runtime.buffered)) =
    loadEntries deps (some (b'.file ++ b'.runtime.buffered))
  rw [h.buffered, h'.buffered, append_nil, append_nil, h.loadEntries, h'.loadEntries, heq]

theorem transparentIff (cycles : List WriterCycle) : TransparentIff deps cycles := by
  induction cycles with
  | nil =>
    intro b b' fs fs' h h' heq _
    exact iff_of_true (sameOutcome_of_clean h h' heq []) trivial
  | cons cycle cycles ih =>
    cases cycle with
    | group first more => exact transparentIff_group first more ih
    | snapshot es => exact transparentIff_snapshot es ih
    | compact => exact transparentIff_compact ih
    | close => exact transparentIff_close cycles

/-- For every queue, every request limit and every timing of the arrivals, group commit
gives the answers, the committed entries and the decoded file of processing every command
alone exactly when every group that is formed is uniform. -/
theorem runWriterLoop_transparent_iff {fs : List AofFrame} (h : Clean deps b fs)
    (options : AofOptions) (patience : Nat → Nat) {queue : List WriterCommand}
    (henc : Encodable deps b.committed.entries queue) :
    SameOutcome deps (runWriterLoop deps options patience 0 b [] queue)
        (runCycles deps b (queue.map alone)) ↔
      UniformRun deps b (writerCycles options patience 0 [] queue) := by
  have hcommands := writerCycles_commands options patience 0 [] queue
  rw [nil_append] at hcommands
  have hmain := transparentIff (writerCycles options patience 0 [] queue) h h rfl
    (by rwa [hcommands])
  rwa [hcommands, ← runWriterLoop_eq] at hmain

def twoAppends (e e' : StorageEntry) : List WriterCommand :=
  [.append (.ofEntry e), .append (.ofEntry e')]

theorem twoAppends_cycles (e e' : StorageEntry) :
    writerCycles {} (fun _ => 1) 0 [] (twoAppends e e') =
      [.group (.ofEntry e) [.ofEntry e']] := by
  have hcollect : collectAppendRequests (.ofEntry e) {} 1 [] [.append (.ofEntry e')] =
      ⟨[.ofEntry e, .ofEntry e'], [], []⟩ := rfl
  have hend : writerCycles {} (fun _ => 1) 1 [] [] = [] := by
    rw [writerCycles]
    rfl
  rw [writerCycles]
  simp only [twoAppends, nextCommand, hcollect, hend, tail_cons]

theorem encodable_twoAppends :
    Encodable Bincode.deps [] (twoAppends ⟨1, 0, []⟩ ⟨2, 0, []⟩) := by
  refine ⟨fun rs hne hsub => ?_, by simp, fun c hc e he => ?_⟩
  · have hmem : rs ∈ sublists [AppendRequest.ofEntry ⟨1, 0, []⟩, .ofEntry ⟨2, 0, []⟩] :=
      mem_sublists.2 hsub
    have hcases : rs = [] ∨ rs = [.ofEntry ⟨1, 0, []⟩] ∨ rs = [.ofEntry ⟨2, 0, []⟩] ∨
        rs = [.ofEntry ⟨1, 0, []⟩, .ofEntry ⟨2, 0, []⟩] := by
      simpa [sublists] using hmem
    rcases hcases with rfl | rfl | rfl | rfl
    · exact absurd rfl hne
    · exact ⟨_, rfl⟩
    · exact ⟨_, rfl⟩
    · exact ⟨_, rfl⟩
  · rcases mem_cons.1 hc with rfl | hc
    · rw [mem_singleton.1 he]
      exact ⟨_, rfl⟩
    · rw [mem_singleton.1 hc] at he
      rw [mem_singleton.1 he]
      exact ⟨_, rfl⟩

/-- A group with increasing sequence numbers is transparent. -/
theorem increasing_group_transparent :
    SameOutcome Bincode.deps
      (runWriterLoop Bincode.deps {} (fun _ => 1) 0 emptyBackend []
        (twoAppends ⟨1, 0, []⟩ ⟨2, 0, []⟩))
      (runCycles Bincode.deps emptyBackend ((twoAppends ⟨1, 0, []⟩ ⟨2, 0, []⟩).map alone)) := by
  rw [runWriterLoop_transparent_iff clean_emptyBackend {} (fun _ => 1) encodable_twoAppends,
    twoAppends_cycles]
  exact ⟨.inl rfl, trivial⟩

/-- Two requests with the same sequence number: alone, the first is accepted; in a group
both fail. -/
theorem clashing_group_not_transparent :
    appendVerdicts (runWriterLoop Bincode.deps {} (fun _ => 1) 0 emptyBackend []
        (twoAppends ⟨1, 0, []⟩ ⟨1, 0, []⟩)).2 = [false, false] ∧
      appendVerdicts (runCycles Bincode.deps emptyBackend
        ((twoAppends ⟨1, 0, []⟩ ⟨1, 0, []⟩).map alone)).2 = [true, false] ∧
      ¬ SameOutcome Bincode.deps
        (runWriterLoop Bincode.deps {} (fun _ => 1) 0 emptyBackend []
          (twoAppends ⟨1, 0, []⟩ ⟨1, 0, []⟩))
        (runCycles Bincode.deps emptyBackend ((twoAppends ⟨1, 0, []⟩ ⟨1, 0, []⟩).map alone)) := by
  have hgrouped : appendVerdicts (runWriterLoop Bincode.deps {} (fun _ => 1) 0 emptyBackend []
      (twoAppends ⟨1, 0, []⟩ ⟨1, 0, []⟩)).2 = [false, false] := by
    rw [runWriterLoop_eq, twoAppends_cycles]
    rfl
  have hserial : appendVerdicts (runCycles Bincode.deps emptyBackend
      ((twoAppends ⟨1, 0, []⟩ ⟨1, 0, []⟩).map alone)).2 = [true, false] := rfl
  refine ⟨hgrouped, hserial, fun h => ?_⟩
  have hanswers := h.answers
  rw [hgrouped, hserial] at hanswers
  cases hanswers

end LatLng.Aof
