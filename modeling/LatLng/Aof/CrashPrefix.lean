import LatLng.Aof.Writer

/-! A file cut anywhere loads to the commits that lie completely within the cut. -/

namespace LatLng.Aof
open Storage Framing List

variable (deps : Deps)

def runCommits (b : Backend) : List CommitGroup → Backend × List CommitGroup
  | [] => (b, [])
  | g :: gs =>
    match commitAppendGroup deps noFaults b g.requests with
    | (.ok (), b') => ((runCommits b' gs).1, g :: (runCommits b' gs).2)
    | (.error _, b') => runCommits b' gs

def commitsLen (gs : List CommitGroup) : Nat :=
  (gs.map fun g => encodedFrameLen deps (groupFrame g.requests)).sum

variable {deps}

theorem runCommits_clean {b : Backend} {fs : List AofFrame} (h : Clean deps b fs)
    (gs : List CommitGroup) :
    Clean deps (runCommits deps b gs).1
      (fs ++ (runCommits deps b gs).2.map fun g => groupFrame g.requests) := by
  induction gs generalizing b fs with
  | nil => simpa [runCommits] using h
  | cons g gs ih =>
    rcases h.commit_cases deps g.nonempty with ⟨p, hp, hv⟩ | ⟨e, he⟩
    · obtain ⟨hok, hclean, -, -⟩ := h.commit g.nonempty hv hp
      cases hc : commitAppendGroup deps noFaults b g.requests with
      | mk r b' =>
        rw [hc] at hok hclean
        subst hok
        simpa [runCommits, hc] using ih hclean
    · simpa [runCommits, he] using ih h

theorem flatMap_frame_length {gs : List CommitGroup} {ps : List (List UInt8)}
    (h : List.Forall₂ (fun f p => deps.serialize f = .ok p)
      (gs.map fun g => groupFrame g.requests) ps) :
    (ps.flatMap frame).length = commitsLen deps gs := by
  induction gs generalizing ps with
  | nil =>
    obtain rfl : ps = [] := by simpa using h
    rfl
  | cons g gs ih =>
    obtain ⟨p, ps, hp, hps, rfl⟩ := forall₂_cons_left_iff.1 h
    simp [commitsLen, encodedFrameLen, hp, ih hps]

theorem framesEntries_groups (gs : List CommitGroup) :
    framesEntries (gs.map fun g => groupFrame g.requests) = gs.flatMap CommitGroup.entries := by
  induction gs with
  | nil => rfl
  | cons g gs ih => rw [map_cons, framesEntries, ih, groupFrame_entries, flatMap_cons,
      CommitGroup.entries]

theorem ValidFrames.take {fs : List AofFrame} (h : ValidFrames fs) (k : Nat) :
    ValidFrames (fs.take k) := by
  constructor
  · rw [framesWellFormed_iff]
    intro f hf
    exact (framesWellFormed_iff _).1 h.wellFormed f (mem_of_mem_take hf)
  · have hsplit := h.increasing
    rw [← take_append_drop k fs, framesEntries_eq_flatMap, flatMap_append] at hsplit
    rw [framesEntries_eq_flatMap]
    exact hsplit.of_append_left

/-- Whatever was committed to an empty file and wherever the file is cut, loading
succeeds with the entries of the first `k` accepted commits, where these are the
commits that lie completely within the cut. -/
theorem loadEntries_take (gs : List CommitGroup) (n : Nat) :
    ∃ k report, k ≤ (runCommits deps emptyBackend gs).2.length ∧
      loadEntriesWithReport deps (some ((runCommits deps emptyBackend gs).1.file.take n)) =
        .ok (((runCommits deps emptyBackend gs).2.take k).flatMap CommitGroup.entries, report) ∧
      Increasing (((runCommits deps emptyBackend gs).2.take k).flatMap CommitGroup.entries) ∧
      report.durablePrefixBytes = commitsLen deps ((runCommits deps emptyBackend gs).2.take k) ∧
      commitsLen deps ((runCommits deps emptyBackend gs).2.take k) ≤ n ∧
      (k < (runCommits deps emptyBackend gs).2.length →
        n < commitsLen deps ((runCommits deps emptyBackend gs).2.take (k + 1))) := by
  have hclean := runCommits_clean (@clean_emptyBackend deps) gs
  generalize (runCommits deps emptyBackend gs).1 = b at *
  generalize (runCommits deps emptyBackend gs).2 = acc at *
  rw [nil_append] at hclean
  obtain ⟨ps, hps, hfile⟩ := hclean.encodes
  have hlen : ps.length = acc.length := by simpa using hps.length_eq.symm
  have htake : ∀ j, List.Forall₂ (fun f p => deps.serialize f = .ok p)
      ((acc.take j).map fun g => groupFrame g.requests) (ps.take j) := by
    intro j
    rw [map_take]
    exact forall₂_take j hps
  obtain ⟨k, t, hk, hcut, hle, hlt, ht⟩ := take_frames ps n
  have henc : Encodes deps ((acc.take k).map fun g => groupFrame g.requests)
      ((ps.take k).flatMap frame) := ⟨_, htake k, rfl⟩
  have hvalid : ValidFrames ((acc.take k).map fun g => groupFrame g.requests) := by
    rw [map_take]
    exact hclean.valid.take k
  have hload : ∃ report, loadEntriesWithReport deps (some (b.file.take n)) =
      .ok (framesEntries ((acc.take k).map fun g => groupFrame g.requests), report) ∧
      report.durablePrefixBytes = ((ps.take k).flatMap frame).length := by
    rw [hfile, hcut]
    rcases ht with rfl | ⟨p, hp, hne, hpre, hshort⟩
    · rw [append_nil]
      exact ⟨_, load_complete henc hvalid, rfl⟩
    · have htorn := readFrame_torn (payload_length_lt hps p hp) hpre hne hshort
      exact ⟨_, load_torn henc hvalid htorn, rfl⟩
  obtain ⟨report, hload, hdur⟩ := hload
  rw [framesEntries_groups] at hload
  have hinc := hvalid.increasing
  rw [framesEntries_groups] at hinc
  refine ⟨k, report, by omega, hload, hinc, ?_, ?_, ?_⟩
  · rw [hdur, flatMap_frame_length (htake k)]
  · rwa [flatMap_frame_length (htake k)] at hle
  · intro hk'
    have := hlt (by omega)
    rwa [flatMap_frame_length (htake (k + 1))] at this

end LatLng.Aof
