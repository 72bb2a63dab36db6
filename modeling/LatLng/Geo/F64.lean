import Mathlib

/-! 64-bit floats by their bit pattern. Comparisons, classification and the total order
are those of the format; arithmetic is not needed here and stays a parameter where the
source computes with floats. -/

namespace LatLng.Geo

open Std

structure F64 where
  bits : UInt64
deriving DecidableEq, Repr

namespace F64

def negative (x : F64) : Bool := 2 ^ 63 ≤ x.bits.toNat

def magnitude (x : F64) : Nat := x.bits.toNat % 2 ^ 63

def isNan (x : F64) : Bool := 0x7ff0000000000000 < x.magnitude

def isFinite (x : F64) : Bool := x.magnitude < 0x7ff0000000000000

/-- Ordered like the number itself; both zeros are zero. -/
def rank (x : F64) : Int := if x.negative then -(x.magnitude : Int) else x.magnitude

def le (x y : F64) : Bool := !x.isNan && !y.isNan && decide (x.rank ≤ y.rank)

def lt (x y : F64) : Bool := !x.isNan && !y.isNan && decide (x.rank < y.rank)

/-- The numeric equality of the format, which is not equality of bit patterns. -/
def numEq (x y : F64) : Bool := !x.isNan && !y.isNan && decide (x.rank = y.rank)

def zero : F64 := ⟨0⟩

def ninety : F64 := ⟨0x4056800000000000⟩

def minusNinety : F64 := ⟨0xc056800000000000⟩

def oneEighty : F64 := ⟨0x4066800000000000⟩

def minusOneEighty : F64 := ⟨0xc066800000000000⟩

def threeSixty : F64 := ⟨0x4076800000000000⟩

def infinity : F64 := ⟨0x7ff0000000000000⟩

def negInfinity : F64 := ⟨0xfff0000000000000⟩

def nan : F64 := ⟨0x7ff8000000000000⟩

def min (x y : F64) : F64 :=
  if x.isNan then y else if y.isNan then x else if x.le y then x else y

def max (x y : F64) : F64 :=
  if x.isNan then y else if y.isNan then x else if y.le x then x else y

/-- Position in the total order: negative numbers downwards, then positive upwards. -/
def totalRank (x : F64) : Int := if x.negative then -(x.magnitude : Int) - 1 else x.magnitude

def totalCmp (x y : F64) : Ordering := compare x.totalRank y.totalRank

theorem totalRank_injective : Function.Injective totalRank := by
  intro x y h
  obtain ⟨⟨a⟩⟩ := x
  obtain ⟨⟨b⟩⟩ := y
  simp only [totalRank, negative, magnitude, UInt64.toNat, decide_eq_true_eq] at h
  have hab : a.toNat = b.toNat := by
    split_ifs at h with h1 h2 h2 <;> omega
  rw [BitVec.eq_of_toNat_eq hab]

instance : TransCmp totalCmp where
  eq_swap := by
    intro a b
    exact @OrientedCmp.eq_swap Int compare _ a.totalRank b.totalRank
  isLE_trans := by
    intro a b c hab hbc
    exact @TransCmp.isLE_trans Int compare _ a.totalRank b.totalRank c.totalRank hab hbc

instance : LawfulEqCmp totalCmp where
  eq_of_compare := by
    intro a b h
    exact totalRank_injective (LawfulEqCmp.eq_of_compare h)
  compare_self := by
    intro a
    exact ReflCmp.compare_self

end F64

end LatLng.Geo
