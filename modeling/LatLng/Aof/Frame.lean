import LatLng.Lib.Framing
import LatLng.Storage.Entry

/-! The append-only file: frames, their encoding, and the loader. The binary
codec and the digest are third-party crates and stay parameters; the only thing
the loader relies on is that decoding inverts encoding. -/

namespace LatLng.Aof
open Storage Framing List

inductive AofFrame where
  | entry (entry : StorageEntry)
  | batch (entries : List StorageEntry)
  | group (frames : List AofFrame)

structure Deps where
  serialize : AofFrame → Except String (List UInt8)
  deserialize : List UInt8 → Except String AofFrame
  md5 : List UInt8 → List UInt8
  deserialize_serialize : ∀ {f b}, serialize f = .ok b → deserialize b = .ok f
  length_lt : ∀ {f b}, serialize f = .ok b → b.length < 2 ^ 64

structure AofIntegrityReport where
  entryCount : Nat
  firstSequence : Option Nat
  lastSequence : Nat
  durablePrefixBytes : Nat
  totalBytes : Nat
  truncatedTail : Bool
  checksumHex : String
deriving DecidableEq, Repr

mutual

def applyFrameToEntries (entries : List StorageEntry) :
    AofFrame → Except StorageError (List StorageEntry)
  | .entry entry => do
    validateBatchAgainstLast entries.getLast? [entry]
    .ok (entries ++ [entry])
  | .batch batch => do
    if batch.isEmpty then .error (.codec "empty batch frame")
    else
      validateBatchAgainstLast entries.getLast? batch
      .ok (entries ++ batch)
  | .group frames =>
    if frames.isEmpty then .error (.codec "empty group frame")
    else applyFramesToEntries entries frames

def applyFramesToEntries (entries : List StorageEntry) :
    List AofFrame → Except StorageError (List StorageEntry)
  | [] => .ok entries
  | frame :: frames => do
    let entries ← applyFrameToEntries entries frame
    applyFramesToEntries entries frames

end

def hexDigits : List Char :=
  ['0', '1', '2', '3', '4', '5', '6', '7', '8', '9', 'a', 'b', 'c', 'd', 'e', 'f']

def checksumHex (checksum : List UInt8) : String :=
  String.ofList (checksum.flatMap fun byte =>
    [hexDigits.getD (byte.toNat / 16) '0', hexDigits.getD (byte.toNat % 16) '0'])

variable (deps : Deps)

def loadStep (entries : List StorageEntry) (payload : List UInt8) :
    Except StorageError (List StorageEntry) :=
  match deps.deserialize payload with
  | .error error => .error (.codec error)
  | .ok frame => applyFrameToEntries entries frame

def loadReport (entries : List StorageEntry) (durable total : Nat) (torn : Bool) :
    AofIntegrityReport where
  entryCount := entries.length
  firstSequence := entries.head?.map StorageEntry.sequence
  lastSequence := lastSequence entries
  durablePrefixBytes := durable
  totalBytes := total
  truncatedTail := torn
  checksumHex := checksumHex (StorageEntry.checksum deps.md5 entries)

/-- `none` is a path that does not exist. -/
def loadEntriesWithReport : Option (List UInt8) →
    Except StorageError (List StorageEntry × AofIntegrityReport)
  | none => .ok ([], loadReport deps [] 0 0 false)
  | some file => do
    let scanned ← scan (loadStep deps) [] 0 file
    .ok (scanned.state, loadReport deps scanned.state scanned.consumed file.length scanned.torn)

def loadEntries (file : Option (List UInt8)) : Except StorageError (List StorageEntry) :=
  (loadEntriesWithReport deps file).map Prod.fst

/-! ## What a frame carries -/

mutual

def AofFrame.entries : AofFrame → List StorageEntry
  | .entry entry => [entry]
  | .batch entries => entries
  | .group frames => framesEntries frames

def framesEntries : List AofFrame → List StorageEntry
  | [] => []
  | frame :: frames => frame.entries ++ framesEntries frames

end

mutual

def AofFrame.WellFormed : AofFrame → Prop
  | .entry _ => True
  | .batch entries => entries ≠ []
  | .group frames => frames ≠ [] ∧ FramesWellFormed frames

def FramesWellFormed : List AofFrame → Prop
  | [] => True
  | frame :: frames => frame.WellFormed ∧ FramesWellFormed frames

end

@[simp] theorem framesEntries_eq_flatMap (fs : List AofFrame) :
    framesEntries fs = fs.flatMap AofFrame.entries := by
  induction fs with
  | nil => rfl
  | cons f fs ih => simp only [framesEntries, ih, flatMap_cons]

theorem framesWellFormed_iff (fs : List AofFrame) :
    FramesWellFormed fs ↔ ∀ f ∈ fs, f.WellFormed := by
  induction fs with
  | nil => simp [FramesWellFormed]
  | cons f fs ih => simp only [FramesWellFormed, ih, forall_mem_cons]

mutual

theorem AofFrame.entries_ne_nil : ∀ {f : AofFrame}, f.WellFormed → f.entries ≠ []
  | .entry _, _ => cons_ne_nil _ _
  | .batch _, h => h
  | .group fs, h => by
    rw [AofFrame.entries]
    exact framesEntries_ne_nil h.2 h.1

theorem framesEntries_ne_nil : ∀ {fs : List AofFrame}, FramesWellFormed fs → fs ≠ [] →
    framesEntries fs ≠ []
  | f :: fs, h, _ => by
    simp only [framesEntries, ne_eq, append_eq_nil_iff, not_and]
    intro hnil
    exact absurd hnil (AofFrame.entries_ne_nil h.1)

end

theorem applyBatch_ok {es batch es' : List StorageEntry} (hes : Increasing es) :
    (do validateBatchAgainstLast es.getLast? batch; Except.ok (es ++ batch)) = Except.ok es' ↔
      Increasing (es ++ batch) ∧ es' = es ++ batch := by
  rw [increasing_append_iff hes, ← validateBatchAgainstLast_ok]
  cases validateBatchAgainstLast es.getLast? batch with
  | error e => simp [bind, Except.bind]
  | ok u => simp [bind, Except.bind, eq_comm]

mutual

/-- The loader takes a frame exactly when it is well formed and continues the
sequence, and then it adds the frame's entries and nothing else. -/
theorem applyFrameToEntries_ok {es es' : List StorageEntry} (hes : Increasing es) :
    ∀ f : AofFrame, applyFrameToEntries es f = .ok es' ↔
      f.WellFormed ∧ Increasing (es ++ f.entries) ∧ es' = es ++ f.entries
  | .entry e => by
    simp only [applyFrameToEntries, AofFrame.WellFormed, AofFrame.entries, true_and]
    exact applyBatch_ok hes
  | .batch [] => by
    simp [applyFrameToEntries, AofFrame.WellFormed]
  | .batch (e :: batch) => by
    simpa [applyFrameToEntries, AofFrame.WellFormed, AofFrame.entries] using applyBatch_ok hes
  | .group [] => by
    simp [applyFrameToEntries, AofFrame.WellFormed]
  | .group (f :: fs) => by
    simpa [applyFrameToEntries, AofFrame.WellFormed, AofFrame.entries] using
      applyFramesToEntries_ok hes (f :: fs)

theorem applyFramesToEntries_ok {es es' : List StorageEntry} (hes : Increasing es) :
    ∀ fs : List AofFrame, applyFramesToEntries es fs = .ok es' ↔
      FramesWellFormed fs ∧ Increasing (es ++ framesEntries fs) ∧ es' = es ++ framesEntries fs
  | [] => by
    simp [applyFramesToEntries, FramesWellFormed, framesEntries, hes, eq_comm]
  | f :: fs => by
    simp only [applyFramesToEntries, FramesWellFormed, framesEntries, bind, Except.bind]
    cases hf : applyFrameToEntries es f with
    | error e =>
      simp only [reduceCtorEq, false_iff]
      rintro ⟨⟨hwf, -⟩, hinc, -⟩
      rw [← append_assoc] at hinc
      have hok : applyFrameToEntries es f = .ok (es ++ f.entries) :=
        (applyFrameToEntries_ok hes f).2 ⟨hwf, hinc.of_append_left, rfl⟩
      rw [hf] at hok
      cases hok
    | ok es₁ =>
      obtain ⟨hwf, hinc, rfl⟩ := (applyFrameToEntries_ok hes f).1 hf
      simp only [applyFramesToEntries_ok hinc fs, hwf, true_and, append_assoc]

end

end LatLng.Aof
