import LatLng.Core.Sample
import LatLng.Replication.Follower

/-! Where a follower ends up once its leader has stopped changing. -/

namespace LatLng.Replication

open LatLng.Core Geo Storage List StorageEntry

variable {lib : Lib} {md5 : List UInt8 → List UInt8}

/-! ### Every history leaves both sides with a log that shows their state -/

variable (lib) in
structure Pair.Inv (p : Pair) : Prop where
  leader : Durable lib p.leader
  follower : Following lib p.follower

/-- The history in question: on the leader successful writes, refused appends, compactions
and flushes, whose records are read back as they were written; on the follower steps of the follow
procedure. Nothing expires meanwhile. -/
def Pair.Admits (lib : Lib) (p : Pair) : Event → Prop
  | .lead ctx call => call.Readable lib p.leader ctx ∧ match call with
    | .request _ => (p.leader.call lib ctx call).1 = .ok () ∨
      ∃ e, (p.leader.call lib ctx call).1 = .error (.storage e)
    | .pdel _ _ | .flushdb => True
    | .aofshrink => Fresh ctx.nowMs p.leader.view
    | _ => False
  | .check => True
  | .fetch ctx batchSize => ∀ entries,
    (p.leader.storageEntriesAfter p.follower.nextSequence batchSize).1 = .ok entries →
      Fresh ctx.nowMs (logView lib (p.follower.storage.entries ++ entries))

namespace Pair.Inv

variable {p : Pair}

theorem fetched (h : p.Inv lib) {after size : Nat} {entries : List StorageEntry}
    (hentries : (p.leader.storageEntriesAfter after size).1 = .ok entries) :
    (∀ entry ∈ entries, Written lib entry) ∧ Increasing entries := by
  rw [storageEntriesAfter_ok hentries]
  refine ⟨fun entry he => h.leader.written entry ?_, ?_⟩
  · exact (mem_filter.1 (mem_of_mem_take he)).1
  · exact (h.leader.increasing.filter _).take

theorem step (h : p.Inv lib) {event : Event} (hadmits : p.Admits lib event) :
    (p.step lib md5 event).Inv lib := by
  cases event with
  | lead ctx call =>
    refine ⟨?_, h.follower⟩
    obtain ⟨hread, hadmits⟩ := hadmits
    cases call with
    | request request =>
      refine h.leader.finish ctx hread (request.plan_intended lib p.leader ctx) (.inr ?_)
      intro e he
      have hcall : (p.leader.call lib ctx (.request request)).1 = .error (.index e) := by
        change ((p.leader.perform lib ctx request).1.map fun _ => ()) = _
        rw [Db.perform, he]
        rfl
      rcases hadmits with hok | ⟨e', herr⟩
      · rw [hcall] at hok
        cases hok
      · rw [hcall] at herr
        cases herr
    | pdel collection pattern => exact h.leader.pdel collection pattern hread
    | flushdb => exact h.leader.flushdb hread
    | aofshrink => exact h.leader.aofshrink hread hadmits
    | _ => exact hadmits.elim
  | check =>
    refine ⟨h.leader, ?_⟩
    change Following lib (followCheck md5 p.leader p.follower).2
    rcases h.follower.check md5 p.leader with
      ⟨e, he, -⟩ | ⟨heq, -⟩ | ⟨f', heq, hf', -⟩
    · rw [he]
      exact h.follower
    · rw [heq]
      exact h.follower
    · rw [heq]
      exact hf'
  | fetch ctx batchSize =>
    rw [Pair.step]
    cases hentries : (p.leader.storageEntriesAfter p.follower.nextSequence batchSize).1 with
    | error e => exact h
    | ok entries =>
      refine ⟨h.leader, ?_⟩
      obtain ⟨hwritten, hinc⟩ := h.fetched hentries
      have hfresh := hadmits entries hentries
      cases entries with
      | nil => exact h.follower
      | cons first rest =>
        by_cases hfirst : first.sequence = p.follower.nextSequence + 1
        · obtain ⟨f', heq, hf', -⟩ := h.follower.apply hwritten hinc hfirst hfresh
          dsimp only
          rw [heq]
          exact hf'
        · dsimp only
          rw [Following.apply_gap hfirst]
          exact h.follower

end Pair.Inv

def Pair.AdmitsAll (lib : Lib) (md5 : List UInt8 → List UInt8) (p : Pair) : List Event → Prop
  | [] => True
  | event :: events => p.Admits lib event ∧ (p.step lib md5 event).AdmitsAll lib md5 events

theorem Pair.Inv.run {p : Pair} {events : List Event}
    (h : p.Inv lib) (hadmits : p.AdmitsAll lib md5 events) : (p.run lib md5 events).Inv lib := by
  induction events generalizing p with
  | nil => exact h
  | cons event events ih => exact ih (h.step hadmits.1) hadmits.2

/-! ### What the leader can make a follower take -/

/-- The entries that reach a follower which has everything up to `next`: batch after batch,
up to the first batch that does not continue the numbering. -/
def continuing (size : Nat) : Nat → Nat → List StorageEntry → List StorageEntry
  | 0, _, _ => []
  | _ + 1, _, [] => []
  | fuel + 1, next, first :: rest =>
    if first.sequence = next + 1 then
      let batch := (first :: rest).take (max size 1)
      batch ++ continuing size fuel (lastSequence batch) ((first :: rest).drop (max size 1))
    else []

def served (size next : Nat) (log : List StorageEntry) : List StorageEntry :=
  continuing size (log.filter (next < ·.sequence)).length next (log.filter (next < ·.sequence))

theorem continuing_fuel (size : Nat) {fuel fuel' next : Nat} {pending : List StorageEntry}
    (h : pending.length ≤ fuel) (h' : pending.length ≤ fuel') :
    continuing size fuel next pending = continuing size fuel' next pending := by
  induction fuel generalizing fuel' next pending with
  | zero =>
    rw [length_eq_zero_iff.1 (Nat.le_zero.1 h)]
    cases fuel' <;> rfl
  | succ fuel ih =>
    cases pending with
    | nil => cases fuel' <;> rfl
    | cons first rest =>
      cases fuel' with
      | zero => cases h'
      | succ fuel' =>
        rw [continuing, continuing]
        dsimp only
        have hdrop : ((first :: rest).drop (max size 1)).length ≤ rest.length := by
          rw [length_drop, length_cons]
          omega
        rw [ih (hdrop.trans (Nat.le_of_succ_le_succ h)) (hdrop.trans (Nat.le_of_succ_le_succ h'))]

section Served

variable {size next : Nat} {log : List StorageEntry} {first : StorageEntry}
  {rest : List StorageEntry}

theorem served_nil (h : log.filter (next < ·.sequence) = []) : served size next log = [] := by
  rw [served, h]
  rfl

theorem served_gap (h : log.filter (next < ·.sequence) = first :: rest)
    (hgap : first.sequence ≠ next + 1) : served size next log = [] := by
  rw [served, h, length_cons, continuing, if_neg hgap]

theorem take_cons_max (size : Nat) (first : StorageEntry) (rest : List StorageEntry) :
    (first :: rest).take (max size 1) = first :: rest.take (max size 1 - 1) := by
  obtain ⟨n, hn⟩ := Nat.exists_eq_succ_of_ne_zero
    (Nat.one_le_iff_ne_zero.1 (Nat.le_max_right size 1))
  rw [hn]
  rfl

variable (size) in
theorem take_batch (hinc : Increasing log) (h : log.filter (next < ·.sequence) = first :: rest) :
    log.filter (·.sequence ≤ lastSequence ((first :: rest).take (max size 1))) =
        log.filter (·.sequence ≤ next) ++ (first :: rest).take (max size 1) ∧
      log.filter (lastSequence ((first :: rest).take (max size 1)) < ·.sequence) =
        (first :: rest).drop (max size 1) := by
  have hne : (first :: rest).take (max size 1) ≠ [] := by
    intro hnil
    rcases take_eq_nil_iff.1 hnil with hzero | hnil
    · omega
    · cases hnil
  have hlog : (log.filter (·.sequence ≤ next) ++ (first :: rest).take (max size 1)) ++
      (first :: rest).drop (max size 1) = log := by
    rw [append_assoc, take_append_drop, ← h]
    exact hinc.split next
  have hsplit := @Increasing.filter_lastSequence
    (log.filter (·.sequence ≤ next) ++ (first :: rest).take (max size 1))
    ((first :: rest).drop (max size 1)) (by rw [hlog]; exact hinc)
    (append_ne_nil_of_right_ne_nil _ hne)
  rw [hlog, lastSequence_append hne] at hsplit
  exact hsplit

variable (size) in
theorem served_batch (hinc : Increasing log)
    (h : log.filter (next < ·.sequence) = first :: rest) (hfirst : first.sequence = next + 1) :
    served size next log = (first :: rest).take (max size 1) ++
      served size (lastSequence ((first :: rest).take (max size 1))) log := by
  rw [served, served, h, (take_batch size hinc h).2, length_cons, continuing, if_pos hfirst]
  dsimp only
  rw [continuing_fuel size _ le_rfl]
  rw [length_drop, length_cons]
  omega

/-- A log that is numbered from 1 without a gap is served to its end from every point on. -/
theorem append_served_of_gapFree (hgapFree : log.map StorageEntry.sequence = range' 1 log.length)
    (size next : Nat) : log.filter (·.sequence ≤ next) ++ served size next log = log := by
  have hinc : Increasing log := by
    have hpair : (log.map StorageEntry.sequence).Pairwise (· < ·) := by
      rw [hgapFree]
      exact pairwise_lt_range'
    exact pairwise_map.1 hpair
  -- by the number of entries that are left
  induction hn : (log.filter (next < ·.sequence)).length using Nat.strong_induction_on
    generalizing next with
  | _ n ih =>
  have hsplit := hinc.split next
  cases hpending : log.filter (next < ·.sequence) with
  | nil => rw [served_nil hpending, append_nil, ← append_nil (filter _ _), ← hpending, hsplit]
  | cons first rest =>
    have hfirst : first.sequence = next + 1 := by
      have hmem : first ∈ log.filter (next < ·.sequence) := hpending ▸ mem_cons_self
      have hnumber := mem_map_of_mem (f := StorageEntry.sequence) (mem_filter.1 hmem).1
      have hlater := of_decide_eq_true (mem_filter.1 hmem).2
      rw [hgapFree, mem_range'_1] at hnumber
      by_contra hgap
      -- the number before it is in the log too, and would be left as well
      have hbefore : first.sequence - 1 ∈ log.map StorageEntry.sequence := by
        rw [hgapFree, mem_range'_1]
        omega
      obtain ⟨before, hlog, heq⟩ := mem_map.1 hbefore
      have hleft : before ∈ first :: rest := by
        rw [← hpending, mem_filter]
        exact ⟨hlog, decide_eq_true (by omega)⟩
      have hordered : Increasing (first :: rest) := hpending ▸ hinc.filter _
      rcases mem_cons.1 hleft with rfl | hrest
      · omega
      · have := (pairwise_cons.1 hordered).1 before hrest
        omega
    obtain ⟨hkept, hleft⟩ := take_batch size hinc hpending
    rw [served_batch size hinc hpending hfirst, ← append_assoc, ← hkept]
    refine ih _ ?_ _ rfl
    rw [hleft, ← hn, hpending, length_drop, length_cons]
    omega

end Served

/-! ### Agreement with a prefix of the leader's log -/

/-- The follower has what the leader's log holds up to the follower's last number, as far as
a checksum can tell. -/
def Agrees (log : List StorageEntry) (f : Db) : Prop :=
  f.storage.entries.flatMap StorageEntry.digestBytes =
    (log.filter (·.sequence ≤ f.nextSequence)).flatMap StorageEntry.digestBytes

theorem length_header (entry : StorageEntry) :
    (Bytes.toLeBytes 8 entry.sequence ++ Bytes.toLeBytes 8 entry.timestampNs).length = 16 := by
  rw [length_append, Bytes.length_toLeBytes, Bytes.length_toLeBytes]

theorem digestBytes_eq_of_begins (hfree : lib.codec.PrefixFree) {a b : StorageEntry}
    (ha : Written lib a) (hb : Written lib b) (h : a.digestBytes <+: b.digestBytes) :
    a.digestBytes = b.digestBytes := by
  obtain ⟨r, hr, -⟩ := ha
  obtain ⟨r', hr', -⟩ := hb
  obtain ⟨tail, ht⟩ := h
  rw [digestBytes, digestBytes, append_assoc] at ht
  obtain ⟨hheader, hcommand⟩ := append_inj ht
    ((length_header a).trans (length_header b).symm)
  rw [digestBytes, digestBytes, hheader,
    hfree r r' _ _ hr hr' ⟨tail, hcommand⟩]

theorem logView_eq_of_digest (hfree : lib.codec.PrefixFree) {as bs : List StorageEntry}
    (has : ∀ a ∈ as, Written lib a) (hbs : ∀ b ∈ bs, Written lib b)
    (h : as.flatMap digestBytes = bs.flatMap digestBytes) : logView lib as = logView lib bs := by
  have hne : ∀ e : StorageEntry, e.digestBytes ≠ [] := by
    intro e hnil
    have := congrArg length hnil
    rw [digestBytes, length_append, length_header] at this
    simp at this
  have hwords := Framing.map_eq_of_flatMap_eq hne (fun a ha b hb hab => hab.elim
    (digestBytes_eq_of_begins hfree (has a ha) (hbs b hb))
    fun hba => (digestBytes_eq_of_begins hfree (hbs b hb) (has a ha) hba).symm) h
  have hcommand : ∀ e : StorageEntry, e.digestBytes.drop 16 = e.command := by
    intro e
    rw [digestBytes, drop_append_of_le_length (length_header e).ge,
      drop_of_length_le (length_header e).le, nil_append]
  have := congrArg (map (drop 16)) hwords
  rw [map_map, map_map] at this
  refine logView_congr ?_
  simpa only [Function.comp_def, hcommand] using this

section Round

variable {leader f : Db} {size : Nat} {ctx : Ctx}

theorem storageEntriesAfter_of_no_faults (hfaults : leader.storage.faults = []) (after : Nat) :
    (leader.storageEntriesAfter after size).1 =
      .ok ((leader.storage.entries.filter (after < ·.sequence)).take (max size 1)) := by
  rw [Db.storageEntriesAfter, LogStore.read_of_no_faults hfaults]
  rfl

theorem Following.agrees_zero (hleader : Durable lib leader) (hlog : f.storage.entries = [])
    (hnext : f.nextSequence = 0) : Agrees leader.storage.entries f := by
  have hnone : leader.storage.entries.filter (·.sequence ≤ 0) = [] := by
    rw [filter_eq_nil_iff]
    intro entry he
    have := hleader.positive entry he
    simp only [decide_eq_true_eq]
    omega
  rw [Agrees, hlog, hnext, hnone]

variable (hleader : Durable lib leader) (hfaults : leader.storage.faults = [])

include hleader hfaults

variable (size) in
theorem followStream_served (hfree : lib.codec.PrefixFree)
    (hfresh : ∀ entries, entries <+: leader.storage.entries →
      Fresh ctx.nowMs (logView lib entries))
    {fuel : Nat} (h : Following lib f) (hagrees : Agrees leader.storage.entries f)
    (hfuel : (leader.storage.entries.filter (f.nextSequence < ·.sequence)).length < fuel) :
    ∃ r f', followStream lib size ctx leader fuel f.nextSequence f = (r, f') ∧
      Following lib f' ∧ Agrees leader.storage.entries f' ∧
      f'.storage.entries =
        f.storage.entries ++ served size f.nextSequence leader.storage.entries ∧
      served size f'.nextSequence leader.storage.entries = [] := by
  induction fuel generalizing f with
  | zero => exact absurd hfuel (Nat.not_lt_zero _)
  | succ fuel ih =>
    have hinc := hleader.increasing
    rw [followStream, storageEntriesAfter_of_no_faults hfaults]
    cases hpending : leader.storage.entries.filter (f.nextSequence < ·.sequence) with
    | nil =>
      have hnone : served size f.nextSequence leader.storage.entries = [] := served_nil hpending
      rw [take_nil]
      refine ⟨_, f, rfl, h, hagrees, ?_, hnone⟩
      rw [hnone, append_nil]
    | cons first rest =>
      have htake := take_cons_max size first rest
      obtain ⟨hkept, hleft⟩ := take_batch size hinc hpending
      have hbatch := served_batch size hinc hpending
      rw [htake] at hkept hleft hbatch ⊢
      dsimp only
      by_cases hfirst : first.sequence = f.nextSequence + 1
      · have hmem : ∀ entry ∈ first :: rest.take (max size 1 - 1), entry ∈ leader.storage.entries := by
          intro entry he
          rw [← htake, ← hpending] at he
          exact (mem_filter.1 (mem_of_mem_take he)).1
        have hordered : Increasing (first :: rest.take (max size 1 - 1)) := by
          rw [← htake, ← hpending]
          exact (hinc.filter _).take
        have hlater : Fresh ctx.nowMs
            (logView lib (f.storage.entries ++ first :: rest.take (max size 1 - 1))) := by
          rw [logView_append, logView_eq_of_digest hfree h.written
            (fun e he => hleader.written e (mem_filter.1 he).1) hagrees, ← logView_append,
            ← hkept]
          exact hfresh _ ⟨_, hinc.split _⟩
        obtain ⟨f', heq, hf', hlog, hnext⟩ := h.apply
          (fun e he => hleader.written e (hmem e he)) hordered hfirst hlater
        have hagrees' : Agrees leader.storage.entries f' := by
          rw [Agrees, hlog, hnext, hkept, flatMap_append, flatMap_append, hagrees]
        have hless : (leader.storage.entries.filter (f'.nextSequence < ·.sequence)).length <
            fuel := by
          rw [hpending, length_cons] at hfuel
          rw [hnext, hleft, length_drop, length_cons]
          omega
        rw [heq]
        dsimp only
        rw [← hnext]
        obtain ⟨r, f'', hstream, hf'', hagrees'', hlog'', hdone⟩ := ih hf' hagrees' hless
        refine ⟨r, f'', hstream, hf'', hagrees'', ?_, hdone⟩
        rw [hlog'', hlog, hbatch hfirst, hnext, append_assoc]
      · have hnone : served size f.nextSequence leader.storage.entries = [] :=
          served_gap hpending hfirst
        rw [Following.apply_gap hfirst]
        refine ⟨_, f, rfl, h, hagrees, ?_, hnone⟩
        rw [hnone, append_nil]

variable (md5) in
theorem checksum_range (last : Nat) : (leader.checksumRange md5 1 last).1 =
      .ok (md5 ((leader.storage.entries.filter (·.sequence ≤ last)).flatMap
        digestBytes)) := by
  have hfilter : leader.storage.entries.filter
      (fun entry => 1 ≤ entry.sequence ∧ entry.sequence ≤ last) =
      leader.storage.entries.filter (·.sequence ≤ last) := by
    refine filter_congr fun entry he => ?_
    have := hleader.positive entry he
    exact decide_eq_decide.2 (and_iff_right this)
  rw [Db.checksumRange, LogStore.read_of_no_faults hfaults, hfilter]
  rfl

/-- Where the next round resumes: the follower's last number if the checksums up to there are
the same, and else the start. -/
def resumePoint (md5 : List UInt8 → List UInt8) (leader follower : Db) : Nat :=
  if StorageEntry.checksum md5 follower.storage.entries =
      StorageEntry.checksum md5
        (leader.storage.entries.filter (·.sequence ≤ follower.nextSequence))
  then follower.nextSequence else 0

theorem followCheck_resume (hmd5 : Function.Injective md5) (h : Following lib f) :
    ∃ f', followCheck md5 leader f = (.ok f'.nextSequence, f') ∧ Following lib f' ∧
      Agrees leader.storage.entries f' ∧ f'.nextSequence = resumePoint md5 leader f ∧
      (Agrees leader.storage.entries f → f' = f) := by
  have hremote := checksum_range md5 hleader hfaults f.nextSequence
  have hresume : Agrees leader.storage.entries f → resumePoint md5 leader f = f.nextSequence :=
    fun hagrees => if_pos (congrArg md5 hagrees)
  rcases h.check md5 leader with
    ⟨e, -, he⟩ | ⟨heq, hsame⟩ | ⟨f', heq, hf', hlog, hnext, hzero, hdiff⟩
  · rw [hremote] at he
    cases he
  · have hagrees : Agrees leader.storage.entries f := by
      rcases hsame with hzero | hsame
      · refine Following.agrees_zero hleader (eq_nil_iff_forall_not_mem.2 ?_) hzero
        intro entry he
        have := h.positive entry he
        have := h.le_next he
        omega
      · rw [hremote] at hsame
        exact (hmd5 (Except.ok.inj hsame)).symm
    exact ⟨f, heq, h, hagrees, (hresume hagrees).symm, fun _ => rfl⟩
  · have hne : ¬ Agrees leader.storage.entries f := by
      intro hagrees
      apply hdiff
      rw [hremote, ← hagrees]
      rfl
    refine ⟨f', by rw [heq, hnext], hf', Following.agrees_zero hleader hlog hnext, ?_,
      fun hagrees => absurd hagrees hne⟩
    rw [hnext]
    exact (if_neg fun hsame => hne (hmd5 hsame)).symm

variable (size) in
theorem followOnce_served (hfree : lib.codec.PrefixFree) (hmd5 : Function.Injective md5)
    (hfresh : ∀ entries, entries <+: leader.storage.entries →
      Fresh ctx.nowMs (logView lib entries)) (h : Following lib f) :
    ∃ r f', followOnce lib md5 size ctx leader f = (r, f') ∧ Following lib f' ∧
      Agrees leader.storage.entries f' ∧ served size f'.nextSequence leader.storage.entries = [] ∧
      f'.view = logView lib
        (leader.storage.entries.filter (·.sequence ≤ resumePoint md5 leader f) ++
          served size (resumePoint md5 leader f) leader.storage.entries) := by
  obtain ⟨f', hcheck, hf', hagrees, hresume, -⟩ := followCheck_resume hleader hfaults hmd5 h
  obtain ⟨r, f'', hstream, hf'', hagrees'', hlog, hdone⟩ := followStream_served size
    hleader hfaults hfree hfresh hf' hagrees
    (Nat.lt_succ_of_le (length_filter_le _ leader.storage.entries))
  refine ⟨r, f'', ?_, hf'', hagrees'', hdone, ?_⟩
  · rw [followOnce, hcheck]
    exact hstream
  · rw [← hf''.shows, hlog, logView_append, logView_eq_of_digest hfree hf'.written
      (fun e he => hleader.written e (mem_filter.1 he).1) hagrees, ← logView_append, hresume]

theorem followOnce_fixed (hmd5 : Function.Injective md5) (h : Following lib f)
    (hagrees : Agrees leader.storage.entries f)
    (hdone : served size f.nextSequence leader.storage.entries = []) :
    (followOnce lib md5 size ctx leader f).2 = f := by
  obtain ⟨f', hcheck, -, -, -, hsame⟩ := followCheck_resume hleader hfaults hmd5 h
  rw [hsame hagrees] at hcheck
  rw [followOnce, hcheck]
  dsimp only
  rw [followStream, storageEntriesAfter_of_no_faults hfaults]
  cases hpending : leader.storage.entries.filter (f.nextSequence < ·.sequence) with
  | nil =>
    rw [take_nil]
  | cons first rest =>
    have htake := take_cons_max size first rest
    have hgap : first.sequence ≠ f.nextSequence + 1 := by
      intro hfirst
      rw [served_batch size hleader.increasing hpending hfirst, htake] at hdone
      cases hdone
    rw [htake]
    dsimp only
    rw [Following.apply_gap hgap]

end Round

/-! ### Convergence -/

theorem Following.build {ctx : Ctx} {storage : LogStore} {config : Config} {db : Db}
    (hempty : storage.entries = []) (hfaults : storage.faults = [])
    (hopen : storage.closed = false) (hbuild : (build lib ctx storage config).1 = .ok db) :
    Following lib db := by
  obtain ⟨hstorage, hkeyed, hview, hnext⟩ := build_empty hempty hbuild
  rw [LogStore.fault_of_no_faults hfaults] at hstorage
  have hlog : db.storage.entries = [] := by rw [hstorage, hempty]
  refine { Faithful.of_empty hlog hkeyed hview with next := ?_, faults := ?_, opened := ?_ }
  · rw [hnext, hlog]
    rfl
  · rw [hstorage, hfaults]
  · rw [hstorage, hopen]

/-- Whatever both sides did before, once the leader has stopped the follower ends up with the
leader's state exactly if the entries it can take, batch by batch and up to the first batch that
does not continue the numbering, already show that state. A log numbered from 1 without a gap does
so. -/
theorem follower_converges_iff (hfree : lib.codec.PrefixFree)
    (hmd5 : Function.Injective md5) {ctx₁ ctx₂ : Ctx} {storage₁ storage₂ : LogStore}
    {config₁ config₂ : Config} {leader₀ follower₀ leader follower : Db} {events : List Event}
    (hempty₁ : storage₁.entries = []) (hstores₁ : storage₁.storesCommandLog)
    (hleader : (build lib ctx₁ storage₁ config₁).1 = .ok leader₀)
    (hempty₂ : storage₂.entries = []) (hfaults₂ : storage₂.faults = [])
    (hopen₂ : storage₂.closed = false)
    (hfollower : (build lib ctx₂ storage₂ config₂).1 = .ok follower₀)
    (hhistory : Pair.AdmitsAll lib md5 ⟨leader₀, follower₀⟩ events)
    (hnow : Pair.run lib md5 ⟨leader₀, follower₀⟩ events = ⟨leader, follower⟩)
    (hquiet : leader.storage.faults = []) (size : Nat) {ctxs : Nat → Ctx}
    (hfresh : ∀ n entries, entries <+: leader.storage.entries →
      Fresh (ctxs n).nowMs (logView lib entries)) :
    ((∃ n, ∀ m ≥ n, (follow lib md5 size ctxs leader follower m).view = leader.view) ↔
      logView lib (leader.storage.entries.filter (·.sequence ≤ resumePoint md5 leader follower) ++
        served size (resumePoint md5 leader follower) leader.storage.entries) = leader.view) ∧
    (leader.storage.entries.map StorageEntry.sequence = range' 1 leader.storage.entries.length →
      ∃ n, ∀ m ≥ n, (follow lib md5 size ctxs leader follower m).view = leader.view) := by
  have hinv : (Pair.mk leader follower).Inv lib := by
    rw [← hnow]
    exact Pair.Inv.run ⟨Durable.build hempty₁ hstores₁ hleader,
      Following.build hempty₂ hfaults₂ hopen₂ hfollower⟩ hhistory
  obtain ⟨r, f, hround, hf, hagrees, hdone, hview⟩ :=
    followOnce_served size hinv.leader hquiet hfree hmd5 (hfresh 0) hinv.follower
  -- the first round decides; all later ones change nothing
  have hrounds : ∀ m, follow lib md5 size ctxs leader follower (m + 1) = f := by
    intro m
    induction m with
    | zero =>
      rw [follow, follow]
      exact congrArg Prod.snd hround
    | succ m ih =>
      rw [follow, ih]
      exact followOnce_fixed hinv.leader hquiet hmd5 hf hagrees hdone
  have hiff : (∃ n, ∀ m ≥ n, (follow lib md5 size ctxs leader follower m).view = leader.view) ↔
      f.view = leader.view := by
    constructor
    · rintro ⟨n, hn⟩
      rw [← hrounds n]
      exact hn (n + 1) (Nat.le_succ n)
    · intro hsame
      refine ⟨1, fun m hm => ?_⟩
      obtain ⟨k, rfl⟩ := Nat.exists_eq_add_of_le' hm
      rw [hrounds k]
      exact hsame
  refine ⟨hview ▸ hiff, fun hgapFree => hiff.2 ?_⟩
  rw [hview, append_served_of_gapFree hgapFree]
  exact hinv.leader.shows

open Sample in
/-- Two entries, in two batches. -/
theorem fresh_follower_converges :
    let start : Pair := ⟨{ storage := {} }, { storage := {} }⟩
    let events := [.lead sampleCtx (.request (setIdle "fleet" "truck")),
      .lead sampleCtx (.request (setIdle "yard" "crane"))]
    let leader := (start.run sampleLib id events).leader
    leader.storage.entries.map StorageEntry.sequence = [1, 2] ∧ ∃ n, ∀ m ≥ n,
      (follow sampleLib id 1 (fun _ => sampleCtx) leader { storage := {} } m).view =
        leader.view := by
  intro start events leader
  have hlog : leader.storage.entries = [⟨1, 0, [3]⟩, ⟨2, 0, [4]⟩] := rfl
  have hreadable := @Call.Readable.of_lossless sampleLib sample_lossless
  refine ⟨by rw [hlog]; rfl, (@follower_converges_iff sampleLib id sample_free Function.injective_id
    sampleCtx sampleCtx {} {} {} {} { storage := {} } { storage := {} } leader { storage := {} }
    events rfl rfl rfl rfl rfl rfl rfl
    ⟨⟨hreadable _ _ _, .inl rfl⟩, ⟨hreadable _ _ _, .inl rfl⟩, trivial⟩
    rfl rfl 1 (fun _ => sampleCtx) ?_).2 (by rw [hlog]; rfl)⟩
  intro n entries hentries
  rw [hlog] at hentries
  have htruck : Fresh 1000 (logView sampleLib [⟨1, 0, [3]⟩]) := (fresh_empty _).upsert "fleet" rfl
  rcases prefix_cons_iff.1 hentries with rfl | ⟨rest, rfl, hrest⟩
  · exact fresh_empty _
  rcases prefix_cons_iff.1 hrest with rfl | ⟨tail, rfl, htail⟩
  · exact htruck
  · rw [prefix_nil.1 htail]
    exact htruck.upsert "yard" rfl

open Sample in
/-- The leader creates a collection, is flushed and creates another one. The second collection
has number 3, the follower waits for number 1 and stays empty for ever. -/
theorem fresh_follower_stuck :
    let start : Pair := ⟨{ storage := {} }, { storage := {} }⟩
    let events := [.lead sampleCtx (.request (.createCollection "fleet")),
      .lead sampleCtx .flushdb, .lead sampleCtx (.request (.createCollection "yard"))]
    let leader := (start.run sampleLib id events).leader
    start.AdmitsAll sampleLib id events ∧ ∀ m,
      (follow sampleLib id 100 (fun _ => sampleCtx) leader { storage := {} } m).view ≠
        leader.view := by
  intro start events leader
  have hrounds : ∀ m, follow sampleLib id 100 (fun _ => sampleCtx) leader { storage := {} } m =
      { storage := {} } := by
    intro m
    induction m with
    | zero => rfl
    | succ m ih =>
      rw [follow, ih]
      rfl
  have hreadable := @Call.Readable.of_lossless sampleLib sample_lossless
  refine ⟨⟨⟨hreadable _ _ _, .inl rfl⟩, ⟨hreadable _ _ _, trivial⟩, ⟨hreadable _ _ _, .inl rfl⟩,
    trivial⟩, fun m hview => ?_⟩
  rw [hrounds] at hview
  have := congrArg (fun v : View => v.collections["yard"]?.isSome) hview
  cases this

end LatLng.Replication
