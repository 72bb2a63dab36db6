import LatLng.Core.Faithful
import LatLng.Lib.Framing
import LatLng.Replication.Follow

/-! One step of a follower: the check against its leader and the application of one batch.
The follower's log always shows its state. -/

namespace LatLng.Replication

open LatLng.Core Storage List

variable {lib : Lib} {md5 : List UInt8 → List UInt8}

variable (lib) in
structure Following (db : Db) : Prop extends Faithful lib db where
  next : db.nextSequence = lastSequence db.storage.entries
  faults : db.storage.faults = []
  opened : db.storage.closed = false

theorem Trimmed.eq_of_fresh {now : Nat} {full kept : View} (h : Trimmed now full kept)
    (hfresh : Fresh now full) : kept = full := by
  have hget : ∀ c id, kept.get c id = full.get c id := by
    intro c id
    rcases h.objects c id with heq | ⟨-, object, hfull, hexp⟩
    · exact heq
    · rw [hfresh c id object hfull] at hexp
      cases hexp
  have hcollections : kept.collections = full.collections := by
    apply Std.ExtTreeMap.ext_getElem?
    intro c
    have hname := h.names c
    cases hf : full.collections[c]? with
    | none =>
      rw [hf] at hname
      exact Option.isNone_iff_eq_none.1 (Option.isSome_eq_false_iff.1 hname)
    | some objects =>
      rw [hf] at hname
      obtain ⟨objects', hk⟩ := Option.isSome_iff_exists.1 hname
      rw [hk]
      congr 1
      apply Std.ExtTreeMap.ext_getElem?
      intro id
      have := hget c id
      rwa [View.get, View.get, hf, hk] at this
  obtain ⟨collections, channels, hooks⟩ := kept
  have hchannels : channels = full.channels := h.channels
  have hhooks : hooks = full.hooks := h.hooks
  have hcoll : collections = full.collections := hcollections
  rw [hchannels, hhooks, hcoll]

namespace Following

variable {f : Db} {ctx : Ctx}

theorem le_next (h : Following lib f) {entry : StorageEntry} (he : entry ∈ f.storage.entries) :
    entry.sequence ≤ f.nextSequence := by
  rw [h.next]
  exact h.increasing.le_lastSequence he

variable {rest : List StorageEntry}

theorem apply (h : Following lib f) {first : StorageEntry}
    (hwritten : ∀ entry ∈ first :: rest, Written lib entry)
    (hinc : Increasing (first :: rest)) (hfirst : first.sequence = f.nextSequence + 1)
    (hfresh : Fresh ctx.nowMs (logView lib (f.storage.entries ++ first :: rest))) :
    ∃ f', f.applyReplicatedEntries lib ctx (first :: rest) =
        (.ok (lastSequence (first :: rest)), f') ∧
      Following lib f' ∧ f'.storage.entries = f.storage.entries ++ first :: rest ∧
      f'.nextSequence = lastSequence (first :: rest) := by
  have hge : ∀ entry ∈ first :: rest, f.nextSequence < entry.sequence := by
    intro entry he
    rcases mem_cons.1 he with rfl | he
    · omega
    · have := (pairwise_cons.1 hinc).1 entry he
      omega
  have hafter : After f.storage.entries.getLast? (first :: rest) := by
    intro l hl entry he
    have := h.le_next (mem_of_getLast? hl)
    have := hge entry he
    omega
  obtain ⟨hok, hview⟩ := applyPersistedEntries_sound
    (fun entry he => (hwritten entry he).decode) ctx.nowMs f.toStore
  have hkeyed := h.keyed.applyPersistedEntries lib ctx.nowMs (first :: rest)
  rw [Db.applyReplicatedEntries, head?_cons]
  dsimp only
  rw [if_neg (by omega), LogStore.appendBatch_of_no_faults h.faults h.opened hinc hafter]
  rcases hs : applyPersistedEntries lib ctx.nowMs f.toStore (first :: rest) with ⟨r, store⟩
  rw [hs] at hok hview hkeyed
  subst hok
  rw [← h.shows, ← logView_append] at hview
  have hgc : (store.gcCollections ctx.nowMs).view = store.view :=
    Trimmed.eq_of_fresh (hkeyed.trimmed_gc ctx.nowMs) (by rw [hview]; exact hfresh)
  refine ⟨_, rfl, ?_, rfl, rfl⟩
  refine { keyed := hkeyed.gcCollections ctx.nowMs, written := ?_, positive := ?_
           increasing := ?_, shows := ?_, next := ?_, faults := h.faults, opened := h.opened }
  · intro entry he
    rcases mem_append.1 he with he | he
    · exact h.written entry he
    · exact hwritten entry he
  · intro entry he
    rcases mem_append.1 he with he | he
    · exact h.positive entry he
    · have := hge entry he
      omega
  · exact (increasing_append_iff h.increasing).2 ⟨hinc, hafter⟩
  · exact hview.symm.trans hgc.symm
  · exact (lastSequence_append (cons_ne_nil first rest)).symm

theorem apply_gap {first : StorageEntry} (hfirst : first.sequence ≠ f.nextSequence + 1) :
    f.applyReplicatedEntries lib ctx (first :: rest) =
      (.error (.storage (.sequenceRegression (f.nextSequence + 1) first.sequence)), f) := by
  rw [Db.applyReplicatedEntries, head?_cons]
  dsimp only
  rw [if_pos hfirst]

theorem reset (h : Following lib f) :
    ∃ f', f.resetReplicationState = (.ok (), f') ∧ Following lib f' ∧ f'.storage.entries = [] ∧
      f'.nextSequence = 0 := by
  rw [Db.resetReplicationState]
  rw [LogStore.snapshot_of_no_faults h.faults h.opened increasing_nil]
  refine ⟨_, rfl, ?_, rfl, rfl⟩
  have hcut : Faithful lib { f with
      toStore := f.clear, storage := { f.storage with entries := [] }, nextSequence := 0 } :=
    Faithful.of_empty rfl f.keyed_clear f.view_clear
  exact { hcut with next := rfl, faults := h.faults, opened := h.opened }

variable (md5) in
theorem check (h : Following lib f) (leader : Db) :
    let checksum := StorageEntry.checksum md5 f.storage.entries
    (∃ e, followCheck md5 leader f = (.error e, f) ∧
      (leader.checksumRange md5 1 f.nextSequence).1 = .error e) ∨
    (followCheck md5 leader f = (.ok f.nextSequence, f) ∧ (f.nextSequence = 0 ∨
      (leader.checksumRange md5 1 f.nextSequence).1 = .ok checksum)) ∨
    (∃ f', followCheck md5 leader f = (.ok 0, f') ∧ Following lib f' ∧
      f'.storage.entries = [] ∧ f'.nextSequence = 0 ∧ f.nextSequence ≠ 0 ∧
      (leader.checksumRange md5 1 f.nextSequence).1 ≠ .ok checksum) := by
  intro checksum
  have hself : f.checksumRange md5 1 f.nextSequence = (.ok checksum, f) := by
    have hall : f.storage.entries.filter
        (fun entry => 1 ≤ entry.sequence ∧ entry.sequence ≤ f.nextSequence) = f.storage.entries := by
      rw [filter_eq_self]
      intro entry he
      exact decide_eq_true ⟨h.positive entry he, h.le_next he⟩
    rw [Db.checksumRange, LogStore.read_of_no_faults h.faults, hall]
    rfl
  rw [followCheck]
  by_cases hzero : f.nextSequence = 0
  · rw [if_pos hzero]
    exact .inr (.inl ⟨by rw [hzero], .inl hzero⟩)
  · rw [if_neg hzero, hself]
    dsimp only
    cases hremote : (leader.checksumRange md5 1 f.nextSequence).1 with
    | error e => exact .inl ⟨e, rfl, rfl⟩
    | ok remote =>
      dsimp only
      by_cases hsame : checksum = remote
      · rw [if_pos hsame, hsame]
        exact .inr (.inl ⟨rfl, .inr rfl⟩)
      · obtain ⟨f', hreset, hf', hlog, hnext⟩ := h.reset
        rw [if_neg hsame, hreset]
        refine .inr (.inr ⟨f', rfl, hf', hlog, hnext, hzero, fun heq => hsame ?_⟩)
        exact (Except.ok.inj heq).symm

end Following

end LatLng.Replication
