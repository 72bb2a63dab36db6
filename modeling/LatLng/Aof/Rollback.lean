import LatLng.Aof.TornTail

/-! A commit whose write or sync fails. The file is cut back and reopened, and only
then is the old writer dropped, which writes what is left in its buffer behind the
cut. -/

namespace LatLng.Aof
open Storage Framing Bytes List BufWriter

variable {deps : Deps}

def flushedLen (n : Nat) : Nat :=
  if 8 + n ≤ BufWriter.capacity then 8 + n else if n < BufWriter.capacity then n else 0

/-- The failing write is one that empties the buffer: the eight length bytes that make
room for a long payload, or the final flush. -/
def EmptyingFails (io : IoFaults) (n : Nat) : Prop :=
  (BufWriter.capacity < 8 + n ∧ io.spill.any (fun k => k < 8)) ∨
    io.flush.any (fun k => k < flushedLen n)

instance (io : IoFaults) (n : Nat) : Decidable (EmptyingFails io n) := by
  unfold EmptyingFails
  infer_instance

theorem writeFrame_cases (io : IoFaults) {f : AofFrame} {p : List UInt8} (file : List UInt8)
    (hp : deps.serialize f = .ok p) :
    ∃ w, file <+: w.sink ∧
      ((writeFrame deps io ⟨[], file⟩ f = (.error (.io io.message), w) ∧ w.buffered ≠ [] ∧
          EmptyingFails io p.length) ∨
        (writeFrame deps io ⟨[], file⟩ f = (.error (.io io.message), w) ∧ w.buffered = [] ∧
          ¬ EmptyingFails io p.length) ∨
        (writeFrame deps io ⟨[], file⟩ f = (.ok (), w) ∧
          (EmptyingFails io p.length ↔ reaches io.flush w.buffered))) := by
  have hheader : writeAll io.spill io.direct (toLeBytes 8 p.length) ⟨[], file⟩ =
      (true, ⟨toLeBytes 8 p.length, file⟩) :=
    writeAll_fits (by simp [capacity]) (by simp [capacity])
  simp only [writeFrame, hp, hheader]
  rcases Nat.lt_or_ge capacity (8 + p.length) with hover | hfits
  · rw [writeAll_overflows (by simpa using hover) (by simp [capacity])]
    by_cases hspill : reaches io.spill (toLeBytes 8 p.length)
    · rw [if_pos hspill]
      obtain ⟨hfst, hne, hsink⟩ :=
        @flushBuf_reaches io.spill ⟨toLeBytes 8 p.length, file⟩ hspill
      cases hf : flushBuf io.spill ⟨toLeBytes 8 p.length, file⟩ with
      | mk ok w =>
        rw [hf] at hfst hne hsink
        subst hfst
        have hfails : io.spill.any (fun k => k < 8) := by simpa [reaches] using hspill
        exact ⟨w, hsink, .inl ⟨rfl, hne, .inl ⟨hover, hfails⟩⟩⟩
    · rw [if_neg hspill]
      have hspill' : ¬ io.spill.any (fun k => k < 8) := by simpa [reaches] using hspill
      have hemptying : EmptyingFails io p.length ↔ io.flush.any (fun k => k < flushedLen p.length) :=
        or_iff_right fun h => hspill' h.2
      by_cases hbig : capacity ≤ p.length
      · have hflushed : flushedLen p.length = 0 := by
          rw [flushedLen, if_neg (by omega), if_neg (by omega)]
        have hnot : ¬ EmptyingFails io p.length := by
          rw [hemptying, hflushed]
          simp
        rw [if_pos hbig]
        by_cases hdirect : reaches io.direct p
        · rw [writeDirect, if_pos hdirect]
          refine ⟨_, ?_, .inr (.inl ⟨rfl, rfl, hnot⟩)⟩
          exact (prefix_append _ _).trans (prefix_append _ _)
        · rw [writeDirect, if_neg hdirect]
          refine ⟨_, ?_, .inr (.inr ⟨rfl, iff_of_false hnot ?_⟩)⟩
          · exact (prefix_append _ _).trans (prefix_append _ _)
          · simp [reaches]
      · have hflushed : flushedLen p.length = p.length := by
          rw [flushedLen, if_neg (by omega), if_pos (by omega)]
        rw [if_neg hbig]
        refine ⟨_, prefix_append _ _, .inr (.inr ⟨rfl, ?_⟩)⟩
        rw [hemptying, hflushed]
        rfl
  · have hflushed : flushedLen p.length = 8 + p.length := by rw [flushedLen, if_pos hfits]
    rw [writeAll_fits (by simpa using hfits) (by omega)]
    rw [EmptyingFails, or_iff_right (fun h => Nat.not_lt.2 hfits h.1), hflushed]
    simp [reaches]

theorem writeAndSyncFrame_failed {io : IoFaults} {f : AofFrame} {p file : List UInt8}
    {e : StorageError} {w : BufWriter} (hp : deps.serialize f = .ok p)
    (h : writeAndSyncFrame deps io ⟨[], file⟩ f = (.error e, w)) :
    file <+: w.sink ∧ (w.buffered = [] ↔ ¬ EmptyingFails io p.length) := by
  unfold writeAndSyncFrame at h
  obtain ⟨w₁, hsink, ⟨hw, hne, hfails⟩ | ⟨hw, hnil, hnot⟩ | ⟨hw, hiff⟩⟩ :=
    writeFrame_cases io file hp
  · rw [hw] at h
    obtain ⟨-, rfl⟩ := Prod.mk.inj h
    exact ⟨hsink, iff_of_false hne (not_not.2 hfails)⟩
  · rw [hw] at h
    obtain ⟨-, rfl⟩ := Prod.mk.inj h
    exact ⟨hsink, iff_of_true hnil hnot⟩
  · rw [hw] at h
    rw [hiff]
    by_cases hreach : reaches io.flush w₁.buffered
    · obtain ⟨hfst, hne, hgrow⟩ := flushBuf_reaches hreach
      cases hf : w₁.flushBuf io.flush with
      | mk ok w₂ =>
        rw [hf] at hfst hne hgrow
        subst hfst
        simp only [hf] at h
        obtain ⟨-, rfl⟩ := Prod.mk.inj h
        exact ⟨hsink.trans hgrow, iff_of_false hne (not_not.2 hreach)⟩
    · simp only [flushBuf_passes hreach] at h
      split_ifs at h
      · obtain ⟨-, rfl⟩ := Prod.mk.inj h
        exact ⟨hsink.trans (prefix_append _ _), iff_of_true rfl hreach⟩
      · cases (Prod.mk.inj h).1

/-! ## The state after a failed commit -/

/-- A writer whose file holds, up to the length it takes for durable, the frames of the committed
entries and then `g`: a torn tail the file was opened with, or nothing. Behind that length there may
be bytes that an earlier failed commit left. -/
structure Loaded (deps : Deps) (b : Backend) (fs : List AofFrame) (g : List UInt8) : Prop where
  buffered : b.runtime.buffered = []
  isOpen : b.committed.closed = false
  durable : b.runtime.durableLen ≤ b.file.length
  file : ∃ base, Encodes deps fs base ∧ b.file.take b.runtime.durableLen = base ++ g
  valid : ValidFrames fs
  committed : b.committed.entries = framesEntries fs

/-- Nothing of a failed commit can be seen: not in this process, not after reopening, and
later accepted calls are read back right after the entries from before. -/
def NoTrace (deps : Deps) (b b' : Backend) : Prop :=
  b'.replay = b.replay ∧ loadEntries deps (some b'.file) = .ok b.replay ∧
    ∀ calls, (∀ c ∈ calls, ApiCall.InRange c) →
      (runCalls deps b' calls).1.replay = b.replay ++ (runCalls deps b' calls).2 ∧
        loadEntries deps (some (runCalls deps b' calls).1.file) =
          .ok (b.replay ++ (runCalls deps b' calls).2)

variable {b : Backend}

/-- The state after a failed commit is the durable part of the state before it, with the bytes that
the dropped writer still got out. -/
theorem commitAppendGroup_failed {io : IoFaults} (hbuf : b.runtime.buffered = [])
    (hclosed : b.committed.closed = false) (hdur : b.runtime.durableLen ≤ b.file.length)
    {rs : List AppendRequest} {e : StorageError} (hne : rs ≠ [])
    (hv : validateRequests b.committed.entries.getLast? rs = .ok ())
    (hfail : (writeAndSyncFrame deps io ⟨b.runtime.buffered, b.file⟩ (groupFrame rs)).1 =
      .error e) :
    ∃ left, commitAppendGroup deps io b rs =
        (.error e, { b with
          file := b.file.take b.runtime.durableLen ++ left.take io.dropWrites }) ∧
      (left = [] ↔ ∀ p, deps.serialize (groupFrame rs) = .ok p → ¬ EmptyingFails io p.length) := by
  obtain ⟨file, ⟨buffered, durableLen⟩, committed⟩ := b
  simp only at hbuf hdur hclosed
  subst hbuf
  cases hw : writeAndSyncFrame deps io ⟨[], file⟩ (groupFrame rs) with
  | mk r w =>
    simp only [hw] at hfail
    subst hfail
    have hleft : file <+: w.sink ∧ (w.buffered = [] ↔
        ∀ p, deps.serialize (groupFrame rs) = .ok p → ¬ EmptyingFails io p.length) := by
      cases hs : deps.serialize (groupFrame rs) with
      | error err =>
        simp only [writeAndSyncFrame, writeFrame, hs] at hw
        obtain ⟨-, rfl⟩ := Prod.mk.inj hw
        exact ⟨prefix_rfl, by simp⟩
      | ok p => simpa using writeAndSyncFrame_failed hs hw
    obtain ⟨⟨extra, hsink⟩, hiff⟩ := hleft
    refine ⟨w.buffered, ?_, hiff⟩
    have hcut : rollbackFile w.sink durableLen = file.take durableLen := by
      rw [← hsink, rollbackFile, take_append_of_le_length hdur, length_append,
        Nat.sub_eq_zero_of_le (by omega), replicate_zero, append_nil]
    simp [commitAppendGroup, hne, hclosed, hv, hw, hcut, reopenWriterRuntime, dropped, hdur]

theorem noTrace_of_clean {fs : List AofFrame} (h : Clean deps b fs) : NoTrace deps b b := by
  refine ⟨rfl, h.loadEntries, fun calls _ => ?_⟩
  obtain ⟨fs', hclean, hrun⟩ := h.runCalls calls
  refine ⟨hrun, ?_⟩
  rw [hclean.loadEntries, hrun]
  rfl

theorem tail_nil_of_noTrace (hlayout : EntryLayout deps) {fs : List AofFrame}
    {base x : List UInt8} (henc : Encodes deps fs base) (hfs : ValidFrames fs)
    (hcommitted : b.committed.entries = framesEntries fs) (hopen : b.committed.closed = false)
    (hbuf : b.runtime.buffered = []) (hroom : lastSequence (framesEntries fs) + 1 < 2 ^ 64)
    (h : NoTrace deps b { b with file := base ++ x }) : x = [] := by
  obtain ⟨-, hload, hlater⟩ := h
  rw [Backend.replay, hcommitted] at hload hlater
  rcases nil_or_torn_of_load henc hfs hload with hnil | htorn
  · exact hnil
  · exfalso
    obtain ⟨e, q, hseq, hts, hq, hlost⟩ := exists_append_lost hlayout henc hfs htorn hroom
    have hafter : ∀ l ∈ b.committed.entries.getLast?, l.sequence < e.sequence := by
      intro l hl
      rw [hcommitted] at hl
      rw [hseq, lastSequence_of_getLast? hl]
      exact Nat.lt_succ_self _
    have hrun := @runCalls_append deps { b with file := base ++ x } hopen hbuf e q hq hafter
    have hin : ∀ c ∈ [ApiCall.append e], c.InRange := by
      intro c hc y hy
      rw [mem_singleton.1 hc] at hy
      rw [mem_singleton.1 hy, hseq, hts]
      exact ⟨hroom, by decide⟩
    have hagain := (hlater [.append e] hin).2
    rw [hrun] at hagain
    simp only [append_assoc] at hagain
    exact hlost hagain

theorem lastSequence_succ_lt {es : List StorageEntry} {rs : List AppendRequest}
    (hne : rs ≠ []) (hv : validateRequests es.getLast? rs = .ok ())
    (hrange : ∀ e ∈ requestEntries rs, e.sequence < 2 ^ 64) : lastSequence es + 1 < 2 ^ 64 := by
  obtain ⟨-, hafter⟩ := (validateRequests_ok _ _).1 hv
  cases hl : es.getLast? with
  | none =>
    rw [getLast?_eq_none_iff.1 hl, lastSequence_nil]
    decide
  | some l =>
    have hentries := framesEntries_ne_nil (framesWellFormed_map_frame rs) (by simpa using hne)
    rw [framesEntries_map_frame] at hentries
    obtain ⟨e, he⟩ := exists_mem_of_ne_nil _ hentries
    have hlt := hafter l hl e he
    have hsmall := hrange e he
    rw [lastSequence_of_getLast? hl]
    omega

/-- A failed commit leaves no trace exactly when the durable part had no torn tail before it and the
old writer has nothing to write when it is dropped, or gets nothing out. -/
theorem failed_commit_noTrace_iff (hlayout : EntryLayout deps) {io : IoFaults} {b : Backend}
    {fs : List AofFrame} {g : List UInt8} (h : Loaded deps b fs g) {rs : List AppendRequest}
    {e : StorageError} (hne : rs ≠ [])
    (hv : validateRequests b.committed.entries.getLast? rs = .ok ())
    (hrange : ∀ e ∈ requestEntries rs, e.sequence < 2 ^ 64)
    (hfail : (writeAndSyncFrame deps io ⟨b.runtime.buffered, b.file⟩ (groupFrame rs)).1 =
      .error e) :
    (commitAppendGroup deps io b rs).1 = .error e ∧
      (NoTrace deps b (commitAppendGroup deps io b rs).2 ↔
        g = [] ∧ (io.dropWrites = 0 ∨
          ∀ p, deps.serialize (groupFrame rs) = .ok p → ¬ EmptyingFails io p.length)) := by
  obtain ⟨left, hcommit, hleft⟩ := commitAppendGroup_failed h.buffered h.isOpen h.durable hne hv
    hfail
  obtain ⟨base, henc, hfile⟩ := h.file
  have hrest : left.take io.dropWrites = [] ↔ io.dropWrites = 0 ∨
      ∀ p, deps.serialize (groupFrame rs) = .ok p → ¬ EmptyingFails io p.length := by
    rw [← hleft]
    exact take_eq_nil_iff
  rw [hcommit, ← hrest]
  refine ⟨rfl, fun hno => ?_, ?_⟩
  · -- an accepted request has a sequence number above the last one, so there is room
    have hroom : lastSequence (framesEntries fs) + 1 < 2 ^ 64 := by
      rw [← h.committed]
      exact lastSequence_succ_lt hne hv hrange
    rw [hfile, append_assoc] at hno
    have hnil := tail_nil_of_noTrace hlayout henc h.valid h.committed h.isOpen h.buffered hroom hno
    exact append_eq_nil_iff.1 hnil
  · rintro ⟨rfl, hnil⟩
    rw [append_nil] at hfile
    rw [hnil, append_nil, hfile]
    have hlen : b.runtime.durableLen = base.length := by
      rw [← hfile, length_take, Nat.min_eq_left h.durable]
    have hclean : Clean deps { b with file := base } fs :=
      ⟨⟨h.buffered, hlen, h.isOpen⟩, henc, h.valid, h.committed⟩
    exact noTrace_of_clean hclean

def firstRequest : AppendRequest := .ofEntry ⟨1, 0, []⟩

/-- An entry is stored, and an earlier failed commit left three bytes behind it. -/
def littered : Backend where
  file := frame (Bincode.encode (.entry ⟨1, 0, []⟩)) ++ [9, 9, 9]
  runtime := ⟨[], 36⟩
  committed := ⟨[⟨1, 0, []⟩], false⟩

/-- A failed sync after everything was flushed is rolled back completely, and the bytes from before
go with it. -/
theorem failed_sync_noTrace :
    NoTrace Bincode.deps littered
      (commitAppendGroup Bincode.deps { syncFails := true } littered [.ofEntry ⟨2, 0, []⟩]).2 := by
  have hloaded : Loaded Bincode.deps littered [.entry ⟨1, 0, []⟩] [] :=
    ⟨rfl, rfl, by decide, ⟨_, encodes_singleton serialize_firstEntry, rfl⟩,
      ⟨⟨trivial, trivial⟩, increasing_singleton _⟩, rfl⟩
  have h := @failed_commit_noTrace_iff Bincode.deps Bincode.entryLayout { syncFails := true }
    littered [.entry ⟨1, 0, []⟩] [] hloaded [.ofEntry ⟨2, 0, []⟩] (.io "io error")
    (cons_ne_nil _ _) rfl (by decide) rfl
  exact h.2.2 ⟨rfl, .inl rfl⟩

/-- A flush that writes nothing, followed by a drop that succeeds: the entry whose append
failed is read back after reopening. -/
theorem failed_flush_entry_replayable :
    (commitAppendGroup Bincode.deps { flush := some 0, dropWrites := 36 } emptyBackend
        [firstRequest]).1 = .error (.io "io error") ∧
      loadEntries Bincode.deps (some (commitAppendGroup Bincode.deps
        { flush := some 0, dropWrites := 36 } emptyBackend [firstRequest]).2.file) =
          .ok [⟨1, 0, []⟩] ∧
      ¬ NoTrace Bincode.deps emptyBackend (commitAppendGroup Bincode.deps
        { flush := some 0, dropWrites := 36 } emptyBackend [firstRequest]).2 := by
  have hfile : (commitAppendGroup Bincode.deps { flush := some 0, dropWrites := 36 } emptyBackend
      [firstRequest]).2.file = frame (Bincode.encode (.entry ⟨1, 0, []⟩)) := rfl
  have hload := loadEntries_complete (encodes_singleton serialize_firstEntry)
    ⟨⟨trivial, trivial⟩, increasing_singleton _⟩
  rw [← hfile] at hload
  refine ⟨rfl, hload, ?_⟩
  rintro ⟨-, hnone, -⟩
  rw [hload] at hnone
  cases hnone

end LatLng.Aof
