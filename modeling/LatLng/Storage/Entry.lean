import LatLng.Lib.Bytes

/-! The storage contract shared by every backend: entries, errors, sequence
validation and replay. -/

namespace LatLng.Storage
open Bytes List

inductive StorageError where
  | io (message : String)
  | codec (message : String)
  | sequenceRegression (expected actual : Nat)
  | closed
  | unsupported (operation : String)
  | message (text : String)
deriving DecidableEq, Repr

structure StorageEntry where
  sequence : Nat
  timestampNs : Nat
  command : List UInt8
deriving DecidableEq, Repr

structure CompactionResult where
  beforeEntries : Nat
  afterEntries : Nat
  beforeBytes : Nat
  afterBytes : Nat
deriving DecidableEq, Repr

namespace StorageEntry

def digestBytes (e : StorageEntry) : List UInt8 :=
  toLeBytes 8 e.sequence ++ toLeBytes 8 e.timestampNs ++ e.command

def checksum (md5 : List UInt8 → List UInt8) (entries : List StorageEntry) : List UInt8 :=
  md5 (entries.flatMap digestBytes)

end StorageEntry

def assertIncreasingFrom : Option Nat → List StorageEntry → Except StorageError Unit
  | _, [] => .ok ()
  | none, entry :: rest => assertIncreasingFrom (some entry.sequence) rest
  | some previous, entry :: rest =>
    if entry.sequence ≤ previous then .error (.sequenceRegression (previous + 1) entry.sequence)
    else assertIncreasingFrom (some entry.sequence) rest

def assertStrictlyIncreasing (entries : List StorageEntry) : Except StorageError Unit :=
  assertIncreasingFrom none entries

/-- The callback of `replay` is a step on the caller's own state. The second
component is the sequence number of the last entry handed out. -/
def replayEntries {σ : Type} (entries : List StorageEntry) (afterSeq : Nat)
    (callback : σ → StorageEntry → Except StorageError σ) (s : σ) :
    Except StorageError (σ × Nat) :=
  (entries.filter fun entry => afterSeq < entry.sequence).foldlM
    (fun acc entry => (callback acc.1 entry).map fun s' => (s', entry.sequence)) (s, afterSeq)

def lastSequence (entries : List StorageEntry) : Nat :=
  (entries.getLast?.map StorageEntry.sequence).getD 0

def Increasing (entries : List StorageEntry) : Prop :=
  entries.Pairwise fun a b => a.sequence < b.sequence

def After (last : Option StorageEntry) (entries : List StorageEntry) : Prop :=
  ∀ l ∈ last, ∀ e ∈ entries, l.sequence < e.sequence

def validateBatchAgainstLast (last : Option StorageEntry) (entries : List StorageEntry) :
    Except StorageError Unit :=
  if entries.isEmpty then .ok ()
  else do
    assertStrictlyIncreasing entries
    match last, entries.head? with
    | some last, some first =>
      if first.sequence ≤ last.sequence then
        .error (.sequenceRegression (last.sequence + 1) first.sequence)
      else .ok ()
    | _, _ => .ok ()

theorem assertIncreasingFrom_ok (last : Option Nat) (es : List StorageEntry) :
    assertIncreasingFrom last es = .ok () ↔
      Increasing es ∧ ∀ l ∈ last, ∀ e ∈ es, l < e.sequence := by
  induction es generalizing last with
  | nil => simp [assertIncreasingFrom, Increasing]
  | cons e es ih =>
    have hrest := ih (some e.sequence)
    simp only [Option.mem_def, Option.some.injEq, forall_eq'] at hrest
    cases last with
    | none =>
      simp only [assertIncreasingFrom, hrest, Increasing, pairwise_cons]
      constructor
      · rintro ⟨hinc, hlt⟩
        exact ⟨⟨hlt, hinc⟩, by simp⟩
      · rintro ⟨⟨hlt, hinc⟩, -⟩
        exact ⟨hinc, hlt⟩
    | some previous =>
      simp only [assertIncreasingFrom, Option.mem_def, Option.some.injEq, forall_eq',
        forall_mem_cons]
      split_ifs with hle
      · simp only [false_iff]
        omega
      · simp only [hrest, Increasing, pairwise_cons]
        constructor
        · rintro ⟨hinc, hlt⟩
          refine ⟨⟨hlt, hinc⟩, by omega, fun x hx => ?_⟩
          have := hlt x hx
          omega
        · rintro ⟨⟨hlt, hinc⟩, -, -⟩
          exact ⟨hinc, hlt⟩

theorem assertStrictlyIncreasing_ok (es : List StorageEntry) :
    assertStrictlyIncreasing es = .ok () ↔ Increasing es := by
  simp [assertStrictlyIncreasing, assertIncreasingFrom_ok]

theorem validateBatchAgainstLast_ok (last : Option StorageEntry) (es : List StorageEntry) :
    validateBatchAgainstLast last es = .ok () ↔ Increasing es ∧ After last es := by
  cases es with
  | nil => simp [validateBatchAgainstLast, Increasing, After]
  | cons e es =>
    simp only [validateBatchAgainstLast, isEmpty_cons, Bool.false_eq_true, if_false,
      head?_cons]
    cases ha : assertStrictlyIncreasing (e :: es) with
    | error err =>
      have hno : ¬ Increasing (e :: es) := by
        rw [← assertStrictlyIncreasing_ok, ha]
        simp
      simp [bind, Except.bind, hno]
    | ok u =>
      have hinc : Increasing (e :: es) := (assertStrictlyIncreasing_ok _).1 ha
      cases last with
      | none => simp [bind, Except.bind, hinc, After]
      | some l =>
        simp only [bind, Except.bind, hinc, true_and, After, Option.mem_def, Option.some.injEq,
          forall_eq', forall_mem_cons]
        have htail : ∀ x ∈ es, e.sequence < x.sequence := (pairwise_cons.1 hinc).1
        split_ifs with hle
        · simp only [false_iff]
          omega
        · simp only [true_iff]
          refine ⟨by omega, fun x hx => ?_⟩
          have := htail x hx
          omega

variable {es : List StorageEntry}

theorem increasing_append_iff {new : List StorageEntry} (hes : Increasing es) :
    Increasing (es ++ new) ↔ Increasing new ∧ After es.getLast? new := by
  unfold Increasing at *
  rw [pairwise_append]
  constructor
  · rintro ⟨-, hnew, hcross⟩
    exact ⟨hnew, fun l hl e he => hcross l (mem_of_getLast? hl) e he⟩
  · rintro ⟨hnew, hafter⟩
    refine ⟨hes, hnew, fun a ha b hb => ?_⟩
    obtain ⟨pre, l, rfl⟩ : ∃ pre l, es = pre ++ [l] := by
      rcases eq_nil_or_concat es with rfl | ⟨pre, l, rfl⟩
      · simp at ha
      · exact ⟨pre, l, by simp⟩
    have hlb : l.sequence < b.sequence := hafter l (by simp) b hb
    rcases mem_append.1 ha with hpre | hl
    · have hal : a.sequence < l.sequence :=
        (pairwise_append.1 hes).2.2 a hpre l (mem_singleton_self l)
      omega
    · rw [mem_singleton.1 hl]
      exact hlb

theorem lastSequence_of_getLast? {l : StorageEntry}
    (h : es.getLast? = some l) : lastSequence es = l.sequence := by
  rw [lastSequence, h]
  rfl

theorem lastSequence_nil : lastSequence [] = 0 := rfl

theorem lastSequence_lt {n : Nat} (hn : 0 < n)
    (h : ∀ e ∈ es, e.sequence < n) : lastSequence es < n := by
  cases hl : es.getLast? with
  | none =>
    rw [getLast?_eq_none_iff.1 hl]
    exact hn
  | some l =>
    rw [lastSequence_of_getLast? hl]
    exact h l (mem_of_getLast? hl)

theorem increasing_nil : Increasing [] := List.Pairwise.nil

theorem increasing_singleton (e : StorageEntry) : Increasing [e] := pairwise_singleton _ _

variable {as bs : List StorageEntry}

theorem Increasing.of_append_left (h : Increasing (as ++ bs)) :
    Increasing as := (pairwise_append.1 h).1

theorem lastSequence_append (h : bs ≠ []) : lastSequence (as ++ bs) = lastSequence bs := by
  rw [lastSequence, lastSequence, getLast?_append_of_ne_nil as h]

theorem Increasing.le_lastSequence (h : Increasing es)
    {e : StorageEntry} (he : e ∈ es) : e.sequence ≤ lastSequence es := by
  obtain ⟨pre, l, rfl⟩ : ∃ pre l, es = pre ++ [l] := by
    rcases eq_nil_or_concat es with rfl | ⟨pre, l, rfl⟩
    · cases he
    · exact ⟨pre, l, by simp⟩
  rw [lastSequence_append (cons_ne_nil l [])]
  rcases mem_append.1 he with hpre | hl
  · exact ((pairwise_append.1 h).2.2 e hpre l (mem_singleton_self l)).le
  · rw [mem_singleton.1 hl]
    rfl

theorem Increasing.lastSequence_le_numbered (h : Increasing es) :
    lastSequence es ≤ lastSequence (es.filter fun entry => 0 < entry.sequence) := by
  rcases Nat.eq_zero_or_pos (lastSequence es) with hzero | hpos
  · rw [hzero]
    exact Nat.zero_le _
  cases hl : es.getLast? with
  | none =>
    rw [getLast?_eq_none_iff.1 hl] at hpos
    exact absurd hpos (Nat.lt_irrefl 0)
  | some l =>
    rw [lastSequence_of_getLast? hl] at hpos ⊢
    have hfilter : Increasing (es.filter fun entry => 0 < entry.sequence) := h.filter _
    exact hfilter.le_lastSequence
      (mem_filter.2 ⟨mem_of_getLast? hl, decide_eq_true hpos⟩)

theorem Increasing.split (h : Increasing es) (n : Nat) :
    es.filter (·.sequence ≤ n) ++ es.filter (n < ·.sequence) = es := by
  induction es with
  | nil => rfl
  | cons e es ih =>
    obtain ⟨hhead, htail⟩ := pairwise_cons.1 h
    by_cases hle : e.sequence ≤ n
    · rw [filter_cons_of_pos (by simpa using hle), filter_cons_of_neg (by simpa using hle),
        cons_append, ih htail]
    · have hnone : es.filter (·.sequence ≤ n) = [] := by
        rw [filter_eq_nil_iff]
        intro a ha
        have := hhead a ha
        simp only [decide_eq_true_eq]
        omega
      have hall : es.filter (n < ·.sequence) = es := by
        rw [filter_eq_self]
        intro a ha
        have := hhead a ha
        simp only [decide_eq_true_eq]
        omega
      rw [filter_cons_of_neg (by simpa using hle),
        filter_cons_of_pos (by simpa using hle), hnone, hall, nil_append]

theorem Increasing.filter_lastSequence (h : Increasing (as ++ bs)) (hne : as ≠ []) :
    (as ++ bs).filter (·.sequence ≤ lastSequence as) = as ∧
      (as ++ bs).filter (lastSequence as < ·.sequence) = bs := by
  have hle : ∀ a ∈ as, a.sequence ≤ lastSequence as := fun a ha =>
    h.of_append_left.le_lastSequence ha
  have hlt : ∀ b ∈ bs, lastSequence as < b.sequence := by
    intro b hb
    cases hl : as.getLast? with
    | none => exact absurd (getLast?_eq_none_iff.1 hl) hne
    | some l =>
      rw [lastSequence_of_getLast? hl]
      exact (pairwise_append.1 h).2.2 l (mem_of_getLast? hl) b hb
  constructor
  · rw [filter_append, filter_eq_self.2 (by simpa using hle),
      filter_eq_nil_iff.2 (by simpa using hlt), append_nil]
  · rw [filter_append, filter_eq_nil_iff.2 (by simpa using hle),
      filter_eq_self.2 (by simpa using hlt), nil_append]

/-! ### What a checksum tells apart -/

namespace StorageEntry

variable {xs ys : List StorageEntry}

end StorageEntry

end LatLng.Storage
