import Mathlib

/-! A buffered writer over a sink that only grows at its end. Every raw write may
stop early: a limit `some n` lets `n` bytes through and then reports an error, and
`none` (or a limit that is never reached) writes everything. -/

structure BufWriter where
  buffered : List UInt8
  sink : List UInt8
deriving DecidableEq, Repr

namespace BufWriter

def capacity : Nat := 8192

def reaches (limit : Option Nat) (data : List UInt8) : Bool :=
  limit.any fun n => n < data.length

def flushBuf (limit : Option Nat) (w : BufWriter) : Bool × BufWriter :=
  if reaches limit w.buffered then
    (false, ⟨w.buffered.drop (limit.getD 0), w.sink ++ w.buffered.take (limit.getD 0)⟩)
  else (true, ⟨[], w.sink ++ w.buffered⟩)

def writeDirect (limit : Option Nat) (data : List UInt8) (w : BufWriter) : Bool × BufWriter :=
  if reaches limit data then (false, ⟨w.buffered, w.sink ++ data.take (limit.getD 0)⟩)
  else (true, ⟨w.buffered, w.sink ++ data⟩)

/-- Small data is buffered, and data that does not fit empties the buffer first.
Data as large as the buffer goes straight to the sink. -/
def writeAll (spill direct : Option Nat) (data : List UInt8) (w : BufWriter) : Bool × BufWriter :=
  let spare := capacity - w.buffered.length
  if data.length < spare then (true, ⟨w.buffered ++ data, w.sink⟩)
  else
    match if spare < data.length then flushBuf spill w else (true, w) with
    | (false, w) => (false, w)
    | (true, w) =>
      if capacity ≤ data.length then writeDirect direct data w
      else (true, ⟨w.buffered ++ data, w.sink⟩)

def dropped (n : Nat) (w : BufWriter) : List UInt8 := w.buffered.take n

theorem flushBuf_none (w : BufWriter) : flushBuf none w = (true, ⟨[], w.sink ++ w.buffered⟩) := rfl

theorem writeDirect_none (data : List UInt8) (w : BufWriter) :
    writeDirect none data w = (true, ⟨w.buffered, w.sink ++ data⟩) := rfl

theorem writeAll_none (data : List UInt8) (w : BufWriter) :
    (writeAll none none data w).1 ∧
      (writeAll none none data w).2.sink ++ (writeAll none none data w).2.buffered =
        w.sink ++ w.buffered ++ data := by
  unfold writeAll
  simp only
  split_ifs with hfit hspill hbig hbig
  · simp
  · simp [flushBuf_none, writeDirect_none]
  · simp [flushBuf_none]
  · have hcap : data.length = capacity - w.buffered.length := by omega
    have hempty : w.buffered = [] := by
      apply List.eq_nil_of_length_eq_zero
      unfold capacity at *
      omega
    simp [writeDirect_none, hempty]
  · simp

variable {w : BufWriter}

theorem writeAll_fits {spill direct : Option Nat} {data : List UInt8}
    (hfit : w.buffered.length + data.length ≤ capacity) (hcap : data.length < capacity) :
    writeAll spill direct data w = (true, ⟨w.buffered ++ data, w.sink⟩) := by
  unfold writeAll
  simp only
  rw [if_neg (show ¬ capacity - w.buffered.length < data.length by omega)]
  simp only [if_neg (show ¬ capacity ≤ data.length by omega), ite_self]

theorem writeAll_overflows {spill direct : Option Nat} {data : List UInt8}
    (hfit : capacity < w.buffered.length + data.length) (hw : w.buffered.length ≤ capacity) :
    writeAll spill direct data w =
      if reaches spill w.buffered then flushBuf spill w
      else if capacity ≤ data.length then writeDirect direct data ⟨[], w.sink ++ w.buffered⟩
      else (true, ⟨data, w.sink ++ w.buffered⟩) := by
  unfold writeAll
  simp only
  rw [if_neg (show ¬ data.length < capacity - w.buffered.length by omega),
    if_pos (show capacity - w.buffered.length < data.length by omega)]
  unfold flushBuf
  split_ifs <;> rfl

theorem flushBuf_reaches {limit : Option Nat} {w : BufWriter} (h : reaches limit w.buffered) :
    (flushBuf limit w).1 = false ∧ (flushBuf limit w).2.buffered ≠ [] ∧
      w.sink <+: (flushBuf limit w).2.sink := by
  unfold flushBuf
  rw [if_pos h]
  refine ⟨rfl, ?_, List.prefix_append _ _⟩
  cases limit with
  | none => cases h
  | some n =>
    have hn : n < w.buffered.length := by simpa [reaches] using h
    intro hnil
    have := congrArg List.length hnil
    simp only [Option.getD_some, List.length_drop, List.length_nil] at this
    omega

theorem flushBuf_passes {limit : Option Nat} (h : ¬ reaches limit w.buffered) :
    flushBuf limit w = (true, ⟨[], w.sink ++ w.buffered⟩) := by
  rw [flushBuf, if_neg h]

end BufWriter
