import LatLng.Aof.Writer

/-! Appending after a torn tail. Opening keeps the torn bytes and the writer starts
behind them, so the first append completes the torn frame with its own bytes
instead of starting a frame of its own. -/

namespace LatLng.Aof
open Storage Framing Bytes List

variable {deps : Deps} {fs : List AofFrame} {file : List UInt8}

theorem loadEntries_after (henc : Encodes deps fs file) (hfs : ValidFrames fs) (g : List UInt8) :
    loadEntries deps (some (file ++ g)) =
      (scan (loadStep deps) (framesEntries fs) file.length g).map Scanned.state := by
  simp only [loadEntries, loadEntriesWithReport, scan_valid henc hfs g, bind, Except.bind]
  cases scan (loadStep deps) (framesEntries fs) file.length g <;> rfl

variable {g : List UInt8}

/-- A frame after the complete ones carries entries, which all that is loaded begins with. -/
theorem loadStep_of_load {p rest : List UInt8} {loaded : List StorageEntry}
    (henc : Encodes deps fs file) (hfs : ValidFrames fs) (hread : readFrame g = .frame p rest)
    (hload : loadEntries deps (some (file ++ g)) = .ok loaded) :
    ∃ new, new ≠ [] ∧ loadStep deps (framesEntries fs) p = .ok (framesEntries fs ++ new) ∧
      framesEntries fs ++ new <+: loaded := by
  rw [loadEntries_after henc hfs, scan_of_frame hread] at hload
  cases hstep : loadStep deps (framesEntries fs) p with
  | error err =>
    rw [hstep] at hload
    cases hload
  | ok es' =>
    rw [hstep] at hload
    obtain ⟨new, hne, rfl, hinc⟩ := loadStep_extends hfs.increasing hstep
    refine ⟨new, hne, rfl, ?_⟩
    cases hscan : scan (loadStep deps) (framesEntries fs ++ new) (file.length + 8 + p.length) rest with
    | error err =>
      simp only [Except.bind, hscan] at hload
      cases hload
    | ok r =>
      simp only [Except.bind, hscan, Except.map, Except.ok.injEq] at hload
      exact hload ▸ scan_extends hinc hscan

theorem nil_or_torn_of_load (henc : Encodes deps fs file)
    (hfs : ValidFrames fs) (hload : loadEntries deps (some (file ++ g)) = .ok (framesEntries fs)) :
    g = [] ∨ readFrame g = .torn := by
  cases hread : readFrame g with
  | done => exact .inl (eq_nil_of_readFrame_done hread)
  | torn => exact .inr rfl
  | frame p rest =>
    obtain ⟨new, hne, -, hpre⟩ := loadStep_of_load henc hfs hread hload
    have hlen := hpre.length_le
    rw [length_append] at hlen
    have hpos := length_pos_iff.2 hne
    omega

/-- If bytes after the complete frames load as exactly one more entry, then their first
frame carries that entry. -/
theorem loadStep_of_load_snoc {p rest : List UInt8} {e : StorageEntry}
    (henc : Encodes deps fs file) (hfs : ValidFrames fs) (hread : readFrame g = .frame p rest)
    (hload : loadEntries deps (some (file ++ g)) = .ok (framesEntries fs ++ [e])) :
    loadStep deps (framesEntries fs) p = .ok (framesEntries fs ++ [e]) := by
  obtain ⟨new, hne, hstep, hpre⟩ := loadStep_of_load henc hfs hread hload
  have hone : new = [e] := by
    rcases prefix_cons_iff.1 ((prefix_append_right_inj _).1 hpre) with hnil | ⟨t, rfl, ht⟩
    · exact absurd hnil hne
    · rw [prefix_nil.1 ht]
  rw [hstep, hone]

theorem load_ne_of_torn (e : StorageEntry)
    (henc : Encodes deps fs file) (hfs : ValidFrames fs) (hread : readFrame g = .torn) :
    loadEntries deps (some (file ++ g)) ≠ .ok (framesEntries fs ++ [e]) := by
  rw [loadEntries_torn henc hfs hread]
  intro h
  have := congrArg length (Except.ok.inj h)
  simp at this

/-! ## The bytes of a single-entry frame -/

/-- The entry that the argument appends: the next sequence number, time zero and a
command of `n` zero bytes followed by `tail`. -/
def probe (seq n : Nat) (tail : List UInt8) : StorageEntry :=
  ⟨seq, 0, replicate n 0 ++ tail⟩

theorem probe_frame (hlayout : EntryLayout deps) {seq n : Nat} {tail : List UInt8}
    (hseq : seq < 2 ^ 64) (hn : n + tail.length < 100) :
    ∃ p, deps.serialize (.entry (probe seq n tail)) = .ok p ∧
      p.length = 28 + n + tail.length ∧
      p = toLeBytes 4 0 ++ toLeBytes 8 seq ++ toLeBytes 8 0 ++ toLeBytes 8 (n + tail.length) ++
        replicate n 0 ++ tail := by
  have hlen : (probe seq n tail).command.length = n + tail.length := by simp [probe]
  have hser := hlayout (probe seq n tail) hseq (by simp [probe]) (by omega)
  rw [hlen] at hser
  refine ⟨_, hser, ?_, ?_⟩
  · simp only [length_append, length_toLeBytes, hlen]
    omega
  · simp only [probe, append_assoc]

theorem readFrame_torn_short {p : List UInt8} (hne : g ≠ []) (hlt : g.length < 8)
    (hp : p.length = 28) : readFrame (g ++ frame p) = .torn := by
  have hpos : 0 < g.length := length_pos_iff.2 hne
  have htake : (g ++ frame p).take 8 = g ++ (toLeBytes 8 28).take (8 - g.length) := by
    rw [take_append, take_of_length_le (by omega), frame, hp,
      take_append_of_le_length (by simp)]
  have hlow : fromLeBytes ((toLeBytes 8 28).take (8 - g.length)) = 28 := by
    apply fromLeBytes_take_toLeBytes (by omega)
    calc 28 < 256 ^ 1 := by decide
      _ ≤ 256 ^ (8 - g.length) := Nat.pow_le_pow_right (by decide) (by omega)
  have hbig : 256 * 28 ≤ fromLeBytes ((g ++ frame p).take 8) := by
    rw [htake, fromLeBytes_append, hlow]
    have hpow : 256 ^ 1 ≤ 256 ^ g.length := Nat.pow_le_pow_right (by decide) hpos
    calc 256 * 28 ≤ 256 ^ g.length * 28 := Nat.mul_le_mul_right 28 hpow
      _ ≤ fromLeBytes g + 256 ^ g.length * 28 := Nat.le_add_left _ _
  unfold readFrame
  rw [if_neg (by simp [hne]), if_neg (by simp [hp])]
  simp only [length_drop, length_append, length_frame, hp]
  rw [if_pos (by omega)]

theorem readFrame_torn_long {a : List UInt8} (h8 : 8 ≤ g.length)
    (hneed : g.length + a.length < 8 + fromLeBytes (g.take 8)) : readFrame (g ++ a) = .torn := by
  have hne : g ++ a ≠ [] := by
    intro hnil
    rw [(append_eq_nil_iff.1 hnil).1] at h8
    simp at h8
  unfold readFrame
  rw [if_neg hne, if_neg (by simp only [length_append]; omega)]
  simp only [take_append_of_le_length h8, length_drop, length_append]
  rw [if_pos (by omega)]

theorem probe_frames_agree (hlayout : EntryLayout deps) {seq n : Nat} (hseq : seq < 2 ^ 64)
    (hn : n + 1 < 100) :
    ∃ p q, deps.serialize (.entry (probe seq n [0])) = .ok p ∧
      deps.serialize (.entry (probe seq n [1])) = .ok q ∧ p.length = 29 + n ∧ q.length = 29 + n ∧
      (frame p).take (36 + n) = (frame q).take (36 + n) := by
  obtain ⟨p, hser, hlen, hp⟩ := @probe_frame deps hlayout seq n [0] hseq hn
  obtain ⟨q, hser', hlen', hq⟩ := @probe_frame deps hlayout seq n [1] hseq hn
  have hlen : p.length = 29 + n := by rw [hlen, length_singleton]; omega
  have hlen' : q.length = 29 + n := by rw [hlen', length_singleton]; omega
  refine ⟨p, q, hser, hser', hlen, hlen', ?_⟩
  have hcut : ∀ x : UInt8, (toLeBytes 8 (29 + n) ++ (toLeBytes 4 0 ++ (toLeBytes 8 seq ++
      (toLeBytes 8 0 ++ (toLeBytes 8 (n + 1) ++ (replicate n (0 : UInt8) ++ [x])))))).take
        (36 + n) =
      toLeBytes 8 (29 + n) ++ (toLeBytes 4 0 ++ (toLeBytes 8 seq ++ (toLeBytes 8 0 ++
        (toLeBytes 8 (n + 1) ++ replicate n (0 : UInt8))))) := by
    intro x
    simp only [← append_assoc]
    apply take_left'
    simp only [length_append, length_toLeBytes, length_replicate]
  rw [frame, frame, hlen, hlen', hp, hq]
  simp only [append_assoc, length_singleton]
  rw [hcut 0, hcut 1]

theorem torn_need (htorn : readFrame g = .torn) (h8 : 8 ≤ g.length) :
    ∃ need, 8 + fromLeBytes (g.take 8) = g.length + need := by
  have hshort : (g.drop 8).length < fromLeBytes (g.take 8) := by
    unfold readFrame at htorn
    simp only at htorn
    split_ifs at htorn with hnil hlt hlen
    · omega
    · exact hlen
  rw [length_drop] at hshort
  exact ⟨8 + fromLeBytes (g.take 8) - g.length, by omega⟩

theorem exists_append_lost (hlayout : EntryLayout deps) (henc : Encodes deps fs file)
    (hfs : ValidFrames fs) (htorn : readFrame g = .torn) {seq : Nat} (hseq : seq < 2 ^ 64) :
    ∃ e p, e.sequence = seq ∧ e.timestampNs = 0 ∧ deps.serialize (.entry e) = .ok p ∧
      loadEntries deps (some (file ++ (g ++ frame p))) ≠ .ok (framesEntries fs ++ [e]) := by
  obtain ⟨p₀, hser₀, hlen₀, -⟩ := @probe_frame deps hlayout seq 0 [] hseq (by decide)
  rcases Nat.lt_or_ge g.length 8 with h8 | h8
  · have hne : g ≠ [] := by
      intro hnil
      rw [hnil, readFrame_nil] at htorn
      cases htorn
    have hread := readFrame_torn_short hne h8 (by simpa using hlen₀)
    exact ⟨_, p₀, rfl, rfl, hser₀, load_ne_of_torn _ henc hfs hread⟩
  · obtain ⟨need, hneed⟩ := torn_need htorn h8
    rcases Nat.lt_or_ge 36 need with hbig | hsmall
    · have hlong : g.length + (frame p₀).length < 8 + fromLeBytes (g.take 8) := by
        simp only [length_frame, hlen₀, length_nil]
        omega
      exact ⟨_, p₀, rfl, rfl, hser₀, load_ne_of_torn _ henc hfs (readFrame_torn_long h8 hlong)⟩
    · -- The first frame is now complete and its payload is the same for both entries,
      -- so it cannot carry each of them.
      obtain ⟨p, q, hp, hq, hlen, hlen', htake⟩ :=
        @probe_frames_agree deps hlayout seq need hseq (by omega)
      have hfirst : fromLeBytes ((g ++ frame p).take 8) = fromLeBytes (g.take 8) := by
        rw [take_append_of_le_length h8]
      obtain ⟨first, ra, rb, hra, hrb⟩ := @readFrame_append_congr g _ _ _ htake
        (by simp [hlen, hlen']) (by omega) (by omega)
        (by simp only [length_frame, hlen]; omega)
      by_contra hall
      push Not at hall
      have h0 := loadStep_of_load_snoc henc hfs hra (hall _ p rfl rfl hp)
      have h1 := loadStep_of_load_snoc henc hfs hrb (hall _ q rfl rfl hq)
      rw [h0] at h1
      have heq := append_cancel_left (Except.ok.inj h1)
      simp [probe] at heq

/-! ## Recovery -/

/-- Opening the file, running the calls, closing and opening again gives the entries
that were there, then those of the accepted calls. -/
def Recovers (deps : Deps) (file : List UInt8) (es : List StorageEntry) (calls : List ApiCall) :
    Prop :=
  ∃ b b', openWithOptions deps (some file) = .ok b ∧
    openWithOptions deps (some (executeClose (runCalls deps b calls).1).file) = .ok b' ∧
    b'.committed.entries = es ++ (runCalls deps b calls).2

def opened (file : List UInt8) (es : List StorageEntry) : Backend :=
  ⟨file, reopenWriterRuntime file, ⟨es, false⟩⟩

variable {es : List StorageEntry}

theorem openWithOptions_of_load (h : loadEntries deps (some file) = .ok es) :
    openWithOptions deps (some file) = .ok (opened file es) := by
  simp [openWithOptions, h, bind, Except.bind, opened]

variable {b : Backend}

theorem load_of_openWithOptions (h : openWithOptions deps (some file) = .ok b) :
    loadEntries deps (some file) = .ok b.committed.entries := by
  unfold openWithOptions at h
  cases hl : loadEntries deps (some file) with
  | error e =>
    rw [hl] at h
    cases h
  | ok es =>
    rw [hl] at h
    obtain rfl := Except.ok.inj h
    rfl

theorem settled_opened (file : List UInt8) (es : List StorageEntry) : Settled (opened file es) :=
  ⟨rfl, rfl, rfl⟩

theorem Settled.executeClose_file (h : Settled b) : (executeClose b).file = b.file := by
  simp [executeClose, h.buffered]

theorem recovers_clean (henc : Encodes deps fs file) (hfs : ValidFrames fs) (calls : List ApiCall) :
    Recovers deps file (framesEntries fs) calls := by
  have hopen := openWithOptions_of_load (loadEntries_complete henc hfs)
  have hclean : Clean deps (opened file (framesEntries fs)) fs :=
    ⟨settled_opened _ _, henc, hfs, rfl⟩
  obtain ⟨fs', hfs', hrun⟩ := hclean.runCalls calls
  have hagain := openWithOptions_of_load hfs'.loadEntries
  rw [← hfs'.executeClose_file] at hagain
  exact ⟨_, _, hopen, hagain, hrun⟩

theorem recovers_of_nothing_stored
    {calls : List ApiCall} (hload : loadEntries deps (some file) = .ok es)
    (hnil : (runCalls deps (opened file es) calls).2 = []) : Recovers deps file es calls := by
  have hopen := openWithOptions_of_load hload
  have hsettled := settled_opened file es
  have hsame := hsettled.runCalls_eq hnil
  refine ⟨opened file es, opened file es, hopen, ?_, ?_⟩
  · rw [hsame, hsettled.executeClose_file]
    exact hopen
  · rw [hnil, append_nil]
    rfl

theorem runCalls_full (h : Settled b) {l : StorageEntry}
    (hl : b.committed.entries.getLast? = some l) (hmax : l.sequence = 2 ^ 64 - 1)
    {calls : List ApiCall} (hrange : ∀ c ∈ calls, c.InRange) : (runCalls deps b calls).2 = [] := by
  induction calls with
  | nil => rfl
  | cons c cs ih =>
    have hcs := ih fun c' hc' => hrange c' (mem_cons_of_mem _ hc')
    rcases h.call_cases deps c with ⟨hnil, hc⟩ | ⟨e, hc⟩ | ⟨r, p, hr, -, hv, -⟩
    · simp only [runCalls, hc, hnil, hcs, append_nil]
    · simp only [runCalls, hc, hcs]
    · exfalso
      obtain ⟨-, hafter⟩ := (validateRequests_ok _ _).1 hv
      obtain ⟨e, he⟩ := exists_mem_of_ne_nil _ r.entries_ne_nil
      have hlt := hafter l hl e (by simpa [requestEntries] using he)
      have hsmall := (hrange c mem_cons_self e (hr ▸ he)).1
      omega

theorem runCalls_append {b : Backend} (hopen : b.committed.closed = false)
    (hbuf : b.runtime.buffered = []) {e : StorageEntry} {p : List UInt8}
    (hser : deps.serialize (.entry e) = .ok p)
    (hseq : ∀ l ∈ b.committed.entries.getLast?, l.sequence < e.sequence) :
    runCalls deps b [.append e] = ({
      file := b.file ++ frame p
      runtime := ⟨[], b.runtime.durableLen + (frame p).length⟩
      committed := ⟨b.committed.entries ++ [e], false⟩ }, [e]) := by
  have hv : validateRequests b.committed.entries.getLast? [.ofEntry e] = .ok () := by
    rw [validateRequests_ok]
    refine ⟨increasing_singleton e, fun l hl x hx => ?_⟩
    obtain rfl : x = e := by simpa [requestEntries, AppendRequest.ofEntry] using hx
    exact hseq l hl
  have hcommit := @commitAppendGroup_noFaults deps _ _ _ (cons_ne_nil _ [])
    hopen hbuf hv hser
  simp only [runCalls, Backend.call, ApiCall.submission, hcommit]
  simp [requestEntries, AppendRequest.ofEntry, ApiCall.entries]

/-- Every sequence of calls on a file of complete frames followed by a strict prefix of
one more is recovered exactly when that prefix is empty or the sequence numbers are used
up. With a torn tail, recovery is sure only for calls that store nothing. -/
theorem recovers_iff_no_torn_tail (hlayout : EntryLayout deps) {fs : List AofFrame}
    {file : List UInt8} (henc : Encodes deps fs file) (hfs : ValidFrames fs)
    (hrange : ∀ e ∈ framesEntries fs, e.sequence < 2 ^ 64) {f : AofFrame} {p t : List UInt8}
    (hser : deps.serialize f = .ok p) (ht : t <+: frame p) (hlt : t.length < (frame p).length) :
    ((∀ calls, (∀ c ∈ calls, ApiCall.InRange c) →
        Recovers deps (file ++ t) (framesEntries fs) calls) ↔
      t = [] ∨ lastSequence (framesEntries fs) = 2 ^ 64 - 1) ∧
    ∀ calls, (∀ b, openWithOptions deps (some (file ++ t)) = .ok b →
        (runCalls deps b calls).2 = []) →
      Recovers deps (file ++ t) (framesEntries fs) calls := by
  have hload : loadEntries deps (some (file ++ t)) = .ok (framesEntries fs) := by
    by_cases hne : t = []
    · rw [hne, append_nil]
      exact loadEntries_complete henc hfs
    · exact loadEntries_torn henc hfs (readFrame_torn (deps.length_lt hser) ht hne hlt)
  have hopen := openWithOptions_of_load hload
  have hsettled := settled_opened (file ++ t) (framesEntries fs)
  refine ⟨⟨fun hall => ?_, ?_⟩, fun calls hnil => ?_⟩
  · by_contra hcon
    obtain ⟨hne, hmax⟩ := not_or.1 hcon
    -- the last sequence number leaves room for one more
    have hroom : lastSequence (framesEntries fs) + 1 < 2 ^ 64 := by
      have := lastSequence_lt (by decide) hrange
      omega
    have htorn := readFrame_torn (deps.length_lt hser) ht hne hlt
    obtain ⟨e, q, hseq, hts, hq, hlost⟩ := exists_append_lost hlayout henc hfs htorn hroom
    have hrun := runCalls_append hsettled.isOpen hsettled.buffered hq (fun l hl => by
      change l ∈ (framesEntries fs).getLast? at hl
      rw [hseq, lastSequence_of_getLast? hl]
      exact Nat.lt_succ_self _)
    obtain ⟨b, b', hb, hb', hentries⟩ := hall [.append e] (by
      intro c hc x hx
      rw [mem_singleton.1 hc] at hx
      rw [mem_singleton.1 hx, hseq, hts]
      exact ⟨hroom, by decide⟩)
    obtain rfl := Except.ok.inj (hopen.symm.trans hb)
    rw [hrun] at hb' hentries
    have hreload := load_of_openWithOptions hb'
    rw [hentries] at hreload
    simp only [executeClose, opened, append_nil, append_assoc] at hreload
    exact hlost hreload
  · rintro (rfl | hmax) calls hin
    · rw [append_nil]
      exact recovers_clean henc hfs calls
    · cases hl : (framesEntries fs).getLast? with
      | none =>
        rw [getLast?_eq_none_iff.1 hl, lastSequence_nil] at hmax
        cases hmax
      | some l =>
        have hlmax : l.sequence = 2 ^ 64 - 1 := (lastSequence_of_getLast? hl).symm.trans hmax
        exact recovers_of_nothing_stored hload (runCalls_full hsettled hl hlmax hin)
  · exact recovers_of_nothing_stored hload (hnil _ hopen)

def tornBytes : List UInt8 := (frame (Bincode.encode (.entry ⟨1, 0, []⟩))).take 10

theorem serialize_firstEntry :
    Bincode.deps.serialize (.entry ⟨1, 0, []⟩) = .ok (Bincode.encode (.entry ⟨1, 0, []⟩)) := rfl

theorem recovers_iff_no_torn_tail_tornBytes :
    ¬ ∀ calls, (∀ c ∈ calls, ApiCall.InRange c) → Recovers Bincode.deps ([] ++ tornBytes) [] calls := by
  have ht : tornBytes <+: frame (Bincode.encode (.entry ⟨1, 0, []⟩)) := take_prefix _ _
  have h := recovers_iff_no_torn_tail Bincode.entryLayout encodes_nil
    ⟨trivial, increasing_nil⟩ (by simp) serialize_firstEntry ht (by decide)
  rw [show framesEntries [] = [] from rfl] at h
  rw [h.1]
  decide

/-- After ten torn bytes an accepted append makes the file unreadable. -/
theorem append_after_tornBytes_unreadable :
    tornBytes ≠ [] ∧ tornBytes.length < (frame (Bincode.encode (.entry ⟨1, 0, []⟩))).length ∧
      openWithOptions Bincode.deps (some tornBytes) = .ok (opened tornBytes []) ∧
      (runCalls Bincode.deps (opened tornBytes []) [.append ⟨1, 0, []⟩]).2 = [⟨1, 0, []⟩] ∧
      (∃ e, openWithOptions Bincode.deps (some (executeClose
        (runCalls Bincode.deps (opened tornBytes []) [.append ⟨1, 0, []⟩]).1).file) = .error e) ∧
      ¬ Recovers Bincode.deps tornBytes [] [.append ⟨1, 0, []⟩] := by
  have htorn : readFrame tornBytes = .torn := by decide
  have hopen : openWithOptions Bincode.deps (some tornBytes) = .ok (opened tornBytes []) :=
    openWithOptions_of_load (loadEntries_torn encodes_nil ⟨trivial, increasing_nil⟩ htorn)
  have hrun := @runCalls_append Bincode.deps (opened tornBytes []) rfl rfl _ _ serialize_firstEntry
    (by simp [opened])
  -- the torn frame is completed with the length field of the appended one
  have hread : ∃ p rest e, readFrame (tornBytes ++ frame (Bincode.encode (.entry ⟨1, 0, []⟩))) =
      .frame p rest ∧ loadStep Bincode.deps [] p = .error e := ⟨_, _, _, rfl, rfl⟩
  obtain ⟨p, rest, e, hframe, hstep⟩ := hread
  have hagain : openWithOptions Bincode.deps (some (executeClose
      (runCalls Bincode.deps (opened tornBytes []) [.append ⟨1, 0, []⟩]).1).file) = .error e := by
    rw [hrun]
    simp only [executeClose, opened, append_nil]
    simp [openWithOptions, loadEntries, loadEntriesWithReport, scan_of_frame hframe, hstep,
      Except.bind, bind, Except.map]
  refine ⟨by decide, by decide, hopen, by rw [hrun], ⟨e, hagain⟩, ?_⟩
  rintro ⟨b, b', hb, hb', -⟩
  obtain rfl := Except.ok.inj (hopen.symm.trans hb)
  rw [hagain] at hb'
  cases hb'

end LatLng.Aof
