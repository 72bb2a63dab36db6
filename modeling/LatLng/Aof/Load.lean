import LatLng.Aof.Bincode

/-! What the loader returns for a file of complete frames with or without a torn
last frame, and for any bytes at all. -/

namespace LatLng.Aof
open Storage Framing List

variable {deps : Deps}

def Encodes (deps : Deps) (fs : List AofFrame) (file : List UInt8) : Prop :=
  ∃ ps, List.Forall₂ (fun f p => deps.serialize f = .ok p) fs ps ∧ file = ps.flatMap frame

structure ValidFrames (fs : List AofFrame) : Prop where
  wellFormed : FramesWellFormed fs
  increasing : Increasing (framesEntries fs)

theorem encodes_nil : Encodes deps [] [] := ⟨[], .nil, rfl⟩

theorem encodes_singleton {f : AofFrame} {p : List UInt8} (h : deps.serialize f = .ok p) :
    Encodes deps [f] (frame p) := ⟨[p], .cons h .nil, by simp⟩

theorem Encodes.append {fs gs : List AofFrame} {a b : List UInt8} (ha : Encodes deps fs a)
    (hb : Encodes deps gs b) : Encodes deps (fs ++ gs) (a ++ b) := by
  obtain ⟨ps, hps, rfl⟩ := ha
  obtain ⟨qs, hqs, rfl⟩ := hb
  exact ⟨ps ++ qs, rel_append hps hqs, by simp⟩

variable {fs : List AofFrame} {ps : List (List UInt8)}

theorem payload_length_lt (h : List.Forall₂ (fun f p => deps.serialize f = .ok p) fs ps) :
    ∀ p ∈ ps, p.length < 2 ^ 64 := by
  induction h with
  | nil => simp
  | cons hf _ ih => exact forall_mem_cons.2 ⟨deps.length_lt hf, ih⟩

theorem foldlM_loadStep
    (h : List.Forall₂ (fun f p => deps.deserialize p = .ok f) fs ps) (es : List StorageEntry) :
    ps.foldlM (loadStep deps) es = applyFramesToEntries es fs := by
  induction h generalizing es with
  | nil => rfl
  | cons hf _ ih =>
    simp only [foldlM_cons, applyFramesToEntries, loadStep, hf]
    congr 1
    funext es'
    exact ih es'

variable {file : List UInt8}

theorem scan_encodes (h : Encodes deps fs file)
    (es : List StorageEntry) (n : Nat) (rest : List UInt8) :
    scan (loadStep deps) es n (file ++ rest) =
      (applyFramesToEntries es fs).bind fun es' =>
        scan (loadStep deps) es' (n + file.length) rest := by
  obtain ⟨ps, hps, rfl⟩ := h
  rw [scan_frames _ ps (payload_length_lt hps),
    foldlM_loadStep (hps.imp fun _ _ h => deps.deserialize_serialize h)]

theorem ValidFrames.applyFrames (h : ValidFrames fs) :
    applyFramesToEntries [] fs = .ok (framesEntries fs) :=
  (applyFramesToEntries_ok increasing_nil fs).2
    ⟨h.wellFormed, by simpa using h.increasing, by simp⟩

section

variable (henc : Encodes deps fs file) (hfs : ValidFrames fs)

include henc hfs

theorem scan_valid (rest : List UInt8) :
    scan (loadStep deps) [] 0 (file ++ rest) =
      scan (loadStep deps) (framesEntries fs) file.length rest := by
  rw [scan_encodes henc, hfs.applyFrames]
  simp [Except.bind]

theorem load_complete :
    loadEntriesWithReport deps (some file) = .ok (framesEntries fs,
      loadReport deps (framesEntries fs) file.length file.length false) := by
  have hscan := scan_valid henc hfs []
  rw [append_nil, scan_nil] at hscan
  simp [loadEntriesWithReport, hscan, bind, Except.bind]

theorem load_torn {t : List UInt8} (ht : readFrame t = .torn) :
    loadEntriesWithReport deps (some (file ++ t)) = .ok (framesEntries fs,
      loadReport deps (framesEntries fs) file.length (file ++ t).length true) := by
  have hscan := scan_valid henc hfs t
  rw [scan_of_torn ht] at hscan
  simp [loadEntriesWithReport, hscan, bind, Except.bind]

theorem loadEntries_complete : loadEntries deps (some file) = .ok (framesEntries fs) := by
  rw [loadEntries, load_complete henc hfs]
  rfl

theorem loadEntries_torn {t : List UInt8} (ht : readFrame t = .torn) :
    loadEntries deps (some (file ++ t)) = .ok (framesEntries fs) := by
  rw [loadEntries, load_torn henc hfs ht]
  rfl

end

variable {es : List StorageEntry}

theorem loadStep_extends {es' : List StorageEntry} {payload : List UInt8} (hes : Increasing es)
    (h : loadStep deps es payload = .ok es') :
    ∃ new, new ≠ [] ∧ es' = es ++ new ∧ Increasing es' := by
  unfold loadStep at h
  cases hd : deps.deserialize payload with
  | error e =>
    rw [hd] at h
    cases h
  | ok f =>
    rw [hd] at h
    obtain ⟨hwf, hinc, rfl⟩ := (applyFrameToEntries_ok hes f).1 h
    exact ⟨f.entries, AofFrame.entries_ne_nil hwf, rfl, hinc⟩

variable {r : Scanned (List StorageEntry)}

theorem scan_increasing {n : Nat} {input : List UInt8} (hes : Increasing es)
    (h : scan (loadStep deps) es n input = .ok r) : Increasing r.state ∧ es <+: r.state := by
  refine scan_invariant (P := fun s => Increasing s ∧ es <+: s) ?_ ⟨hes, prefix_rfl⟩ h
  rintro s payload s' ⟨hinc, hprefix⟩ hstep
  obtain ⟨new, -, rfl, hinc'⟩ := loadStep_extends hinc hstep
  exact ⟨hinc', hprefix.trans (prefix_append s new)⟩

theorem scan_extends {n : Nat} {input : List UInt8} (hes : Increasing es)
    (h : scan (loadStep deps) es n input = .ok r) : es <+: r.state :=
  (scan_increasing hes h).2

theorem loadEntries_increasing {file : Option (List UInt8)}
    (h : loadEntries deps file = .ok es) : Increasing es := by
  cases file with
  | none =>
    obtain rfl := Except.ok.inj h
    exact increasing_nil
  | some file =>
    simp only [loadEntries, loadEntriesWithReport] at h
    cases hscan : scan (loadStep deps) [] 0 file with
    | error e =>
      rw [hscan] at h
      cases h
    | ok scanned =>
      rw [hscan] at h
      obtain rfl := Except.ok.inj h
      exact (scan_increasing increasing_nil hscan).1

/-! ### Any bytes -/

section Survives

variable (deps file) (room : Nat)

variable {deps file room} {report : AofIntegrityReport}

end Survives

end LatLng.Aof
