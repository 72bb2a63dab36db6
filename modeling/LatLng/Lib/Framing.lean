import LatLng.Lib.Bytes

/-! Streams of length-prefixed frames: an eight byte little-endian length, then
that many payload bytes. `scan` folds a step function over the complete frames
and stops at a clean end or at a torn last frame. -/

namespace Framing
open Bytes List

variable {σ ε : Type}

def frame (payload : List UInt8) : List UInt8 := toLeBytes 8 payload.length ++ payload

inductive Read where
  | done
  | torn
  | frame (payload rest : List UInt8)
deriving DecidableEq, Repr

/-- One attempt to read a frame. A payload is complete as soon as the announced
number of bytes is there; nothing else about it is checked. -/
def readFrame (input : List UInt8) : Read :=
  if input = [] then .done
  else if input.length < 8 then .torn
  else
    let len := fromLeBytes (input.take 8)
    if (input.drop 8).length < len then .torn
    else .frame ((input.drop 8).take len) ((input.drop 8).drop len)

structure Scanned (σ : Type) where
  state : σ
  consumed : Nat
  torn : Bool
deriving Repr

@[simp] theorem length_frame (p : List UInt8) : (frame p).length = 8 + p.length := by
  simp only [frame, length_append, length_toLeBytes]

variable {input p : List UInt8} {rest : List UInt8}

theorem readFrame_length (h : readFrame input = .frame p rest) :
    8 + p.length + rest.length = input.length := by
  unfold readFrame at h
  simp only at h
  split_ifs at h
  obtain ⟨rfl, rfl⟩ := Read.frame.inj h
  simp only [length_take, length_drop] at *
  omega

def scan (step : σ → List UInt8 → Except ε σ) (s : σ) (offset : Nat) (input : List UInt8) :
    Except ε (Scanned σ) :=
  match _h : readFrame input with
  | .done => .ok ⟨s, offset, false⟩
  | .torn => .ok ⟨s, offset, true⟩
  | .frame payload rest =>
    match step s payload with
    | .error e => .error e
    | .ok s' => scan step s' (offset + 8 + payload.length) rest
termination_by input.length
decreasing_by
  have := readFrame_length _h
  omega

theorem readFrame_nil : readFrame [] = .done := rfl

theorem eq_nil_of_readFrame_done (h : readFrame input = .done) : input = [] := by
  unfold readFrame at h
  simp only at h
  split_ifs at h with hnil
  exact hnil

theorem readFrame_frame (hp : p.length < 2 ^ 64) (rest : List UInt8) :
    readFrame (frame p ++ rest) = .frame p rest := by
  have htake : (frame p ++ rest).take 8 = toLeBytes 8 p.length := by
    rw [frame, append_assoc, take_append_of_le_length (by simp),
      take_of_length_le (by simp)]
  have hdrop : (frame p ++ rest).drop 8 = p ++ rest := by
    rw [frame, append_assoc, drop_append_of_le_length (by simp),
      drop_of_length_le (by simp), nil_append]
  have hne : frame p ++ rest ≠ [] := by
    intro hnil
    have := congrArg length hnil
    simp at this
  have hlen : ¬ (frame p ++ rest).length < 8 := by
    simp only [length_append, length_frame]
    omega
  have hle : fromLeBytes (toLeBytes 8 p.length) = p.length :=
    fromLeBytes_toLeBytes (by simpa using hp)
  unfold readFrame
  rw [if_neg hne, if_neg hlen]
  simp only [htake, hle, hdrop, length_append, Nat.not_lt.2 (Nat.le_add_right _ _),
    if_false, take_left', drop_left']

theorem readFrame_torn {t : List UInt8} (hp : p.length < 2 ^ 64) (ht : t <+: frame p)
    (hne : t ≠ []) (hlt : t.length < (frame p).length) : readFrame t = .torn := by
  unfold readFrame
  rw [if_neg hne]
  by_cases h8 : t.length < 8
  · rw [if_pos h8]
  · rw [if_neg h8]
    obtain ⟨u, hu⟩ := ht
    have htake : t.take 8 = toLeBytes 8 p.length := by
      have h1 : (t ++ u).take 8 = t.take 8 := take_append_of_le_length (by omega)
      rw [← h1, hu, frame, take_append_of_le_length (by simp), take_of_length_le (by simp)]
    have hle : fromLeBytes (t.take 8) = p.length := by
      rw [htake]
      exact fromLeBytes_toLeBytes (by simpa using hp)
    simp only [hle, length_drop, length_frame] at *
    rw [if_pos (by omega)]

variable {step : σ → List UInt8 → Except ε σ} {s : σ} {n : Nat}

theorem scan_of_done (h : readFrame input = .done) : scan step s n input = .ok ⟨s, n, false⟩ := by
  rw [scan]
  split <;> simp_all

theorem scan_nil (step : σ → List UInt8 → Except ε σ) (s : σ) (n : Nat) :
    scan step s n [] = .ok ⟨s, n, false⟩ := scan_of_done readFrame_nil

theorem scan_of_torn (h : readFrame input = .torn) : scan step s n input = .ok ⟨s, n, true⟩ := by
  rw [scan]
  split <;> simp_all

theorem scan_of_frame (h : readFrame input = .frame p rest) :
    scan step s n input = (step s p).bind fun s' => scan step s' (n + 8 + p.length) rest := by
  rw [scan]
  split
  · simp_all
  · simp_all
  · rename_i p' rest' h'
    rw [h] at h'
    obtain ⟨rfl, rfl⟩ := Read.frame.inj h'
    cases hs : step s p <;> rfl

theorem scan_invariant {P : σ → Prop}
    (hstep : ∀ s p s', P s → step s p = .ok s' → P s') {r : Scanned σ} (hs : P s)
    (h : scan step s n input = .ok r) : P r.state := by
  fun_induction scan step s n input with
  | case1 | case2 =>
    obtain rfl := Except.ok.inj h
    exact hs
  | case3 => cases h
  | case4 s n input payload rest hread s' hpayload ih =>
    exact ih (hstep s payload s' hs hpayload) h

def announced (input : List UInt8) : List Nat :=
  if input.length < 8 then [] else [fromLeBytes (input.take 8)]

def requests (step : σ → List UInt8 → Except ε σ) (s : σ) (input : List UInt8) : List Nat :=
  announced input ++
    match _h : readFrame input with
    | .frame payload rest =>
      match step s payload with
      | .error _ => []
      | .ok s' => requests step s' rest
    | _ => []
termination_by input.length
decreasing_by
  have := readFrame_length _h
  omega

theorem scan_frames (step : σ → List UInt8 → Except ε σ) (ps : List (List UInt8))
    (hps : ∀ p ∈ ps, p.length < 2 ^ 64) (s : σ) (n : Nat) (rest : List UInt8) :
    scan step s n (ps.flatMap frame ++ rest) =
      (ps.foldlM step s).bind fun s' => scan step s' (n + (ps.flatMap frame).length) rest := by
  induction ps generalizing s n with
  | nil => simp [pure, Except.pure, Except.bind]
  | cons p ps ih =>
    have hp := hps p mem_cons_self
    have hps' : ∀ q ∈ ps, q.length < 2 ^ 64 := fun q hq => hps q (mem_cons_of_mem _ hq)
    rw [flatMap_cons, append_assoc, scan_of_frame (readFrame_frame hp _), foldlM_cons]
    cases hstep : step s p with
    | error e => rfl
    | ok s' =>
      simp only [Except.bind, bind, ih hps', length_append, length_frame]
      congr 1
      funext s''
      congr 1
      omega

/-- Cutting a stream of frames anywhere leaves the frames that lie within the cut
and a torn rest, which is empty exactly on a frame boundary. -/
theorem take_frames (ps : List (List UInt8)) (n : Nat) :
    ∃ k t, k ≤ ps.length ∧ (ps.flatMap frame).take n = (ps.take k).flatMap frame ++ t ∧
      ((ps.take k).flatMap frame).length ≤ n ∧
      (k < ps.length → n < ((ps.take (k + 1)).flatMap frame).length) ∧
      (t = [] ∨ ∃ p ∈ ps, t ≠ [] ∧ t <+: frame p ∧ t.length < (frame p).length) := by
  induction ps generalizing n with
  | nil => exact ⟨0, [], by simp⟩
  | cons p ps ih =>
    by_cases hn : n < (frame p).length
    · refine ⟨0, (frame p).take n, by simp, ?_, by simp, fun _ => by simpa using hn, ?_⟩
      · rw [flatMap_cons, take_append_of_le_length hn.le]
        simp
      · rcases Nat.eq_zero_or_pos n with rfl | hpos
        · exact .inl (take_zero)
        · refine .inr ⟨p, mem_cons_self, ?_, take_prefix _ _, ?_⟩
          · intro hnil
            have := congrArg length hnil
            simp only [length_take, length_nil] at this
            omega
          · simpa using hn
    · obtain ⟨k, t, hk, htake, hle, hlt, ht⟩ := ih (n - (frame p).length)
      refine ⟨k + 1, t, by simpa using hk, ?_, ?_, fun hk' => ?_, ?_⟩
      · rw [flatMap_cons, take_append, take_of_length_le (by omega), htake,
          take_succ_cons, flatMap_cons, append_assoc]
      · rw [take_succ_cons, flatMap_cons, length_append]
        omega
      · have := hlt (by simpa using hk')
        rw [take_succ_cons, flatMap_cons, length_append]
        omega
      · rcases ht with rfl | ⟨q, hq, h⟩
        · exact .inl rfl
        · exact .inr ⟨q, mem_cons_of_mem _ hq, h⟩

/-- The torn state of a stream and the payload of its first frame depend only
on the bytes read for them. -/
theorem readFrame_append_congr {g a b : List UInt8} {k : Nat} (hab : a.take k = b.take k)
    (hlen : a.length = b.length) (h8 : 8 ≤ g.length + k)
    (hk : 8 + fromLeBytes ((g ++ a).take 8) ≤ g.length + k) (hka : k ≤ a.length) :
    ∃ p ra rb, readFrame (g ++ a) = .frame p ra ∧ readFrame (g ++ b) = .frame p rb := by
  have htk : ∀ m ≤ g.length + k, (g ++ a).take m = (g ++ b).take m := by
    intro m hm
    rw [take_append, take_append]
    have : (a.take (m - g.length)) = b.take (m - g.length) := by
      have h1 := congrArg (take (m - g.length)) hab
      rwa [take_take, take_take, Nat.min_eq_left (by omega)] at h1
    rw [this]
  have hread : ∀ c : List UInt8, c.length = a.length → (g ++ c).take 8 = (g ++ a).take 8 →
      readFrame (g ++ c) = .frame (((g ++ c).drop 8).take (fromLeBytes ((g ++ a).take 8)))
        (((g ++ c).drop 8).drop (fromLeBytes ((g ++ a).take 8))) := by
    intro c hc hc8
    have hne : g ++ c ≠ [] := by
      intro hnil
      have := congrArg length hnil
      simp only [length_append, length_nil] at this
      omega
    unfold readFrame
    rw [if_neg hne, if_neg (by simp only [length_append]; omega)]
    simp only [hc8, length_drop, length_append]
    rw [if_neg (by omega)]
  have hp : ((g ++ a).drop 8).take (fromLeBytes ((g ++ a).take 8)) =
      ((g ++ b).drop 8).take (fromLeBytes ((g ++ a).take 8)) := by
    have h1 := congrArg (drop 8) (htk _ hk)
    rwa [drop_take, drop_take, Nat.add_sub_cancel_left] at h1
  have hb := hread b hlen.symm (htk 8 h8).symm
  rw [← hp] at hb
  exact ⟨_, _, _, hread a rfl rfl, hb⟩

theorem map_eq_of_flatMap_eq {α β : Type} {word : α → List β} {xs ys : List α}
    (hne : ∀ x, word x ≠ [])
    (hpf : ∀ x ∈ xs, ∀ y ∈ ys, word x <+: word y ∨ word y <+: word x → word x = word y)
    (h : xs.flatMap word = ys.flatMap word) : xs.map word = ys.map word := by
  induction xs generalizing ys with
  | nil =>
    cases ys with
    | nil => rfl
    | cons y ys =>
      exact absurd (append_eq_nil_iff.1 h.symm).1 (hne y)
  | cons x xs ih =>
    cases ys with
    | nil =>
      exact absurd (append_eq_nil_iff.1 h).1 (hne x)
    | cons y ys =>
      rw [flatMap_cons, flatMap_cons] at h
      have hword : word x = word y := by
        refine hpf x mem_cons_self y mem_cons_self ?_
        refine prefix_or_prefix_of_prefix (prefix_append _ (xs.flatMap word)) ?_
        rw [h]
        exact prefix_append _ _
      rw [hword] at h
      rw [map_cons, map_cons, hword,
        ih (fun x hx y hy => hpf x (mem_cons_of_mem _ hx) y (mem_cons_of_mem _ hy))
          (append_cancel_left h)]

end Framing
