import Mathlib

/-! Fixed-width little-endian numbers as byte strings. -/

namespace Bytes

def toLeBytes : Nat → Nat → List UInt8
  | 0, _ => []
  | w + 1, v => UInt8.ofNat v :: toLeBytes w (v / 256)

def fromLeBytes : List UInt8 → Nat
  | [] => 0
  | b :: bs => b.toNat + 256 * fromLeBytes bs

@[simp] theorem length_toLeBytes (w v : Nat) : (toLeBytes w v).length = w := by
  induction w generalizing v with
  | zero => rfl
  | succ w ih => simp only [toLeBytes, List.length_cons, ih]

theorem fromLeBytes_append (as bs : List UInt8) :
    fromLeBytes (as ++ bs) = fromLeBytes as + 256 ^ as.length * fromLeBytes bs := by
  induction as with
  | nil => simp only [List.nil_append, fromLeBytes, List.length_nil, pow_zero, one_mul, zero_add]
  | cons a as ih =>
    simp only [List.cons_append, fromLeBytes, ih, List.length_cons]
    ring

theorem fromLeBytes_take_toLeBytes {w n v : Nat} (hn : n ≤ w) (h : v < 256 ^ n) :
    fromLeBytes ((toLeBytes w v).take n) = v := by
  induction n generalizing w v with
  | zero =>
    have hv : v = 0 := by simpa using h
    rw [List.take_zero, hv]
    rfl
  | succ n ih =>
    obtain ⟨w, rfl⟩ : ∃ w', w = w' + 1 := ⟨w - 1, by omega⟩
    have hdiv : v / 256 < 256 ^ n := by
      apply Nat.div_lt_of_lt_mul
      rwa [pow_succ, Nat.mul_comm] at h
    have hn' : n ≤ w := by omega
    simp only [toLeBytes, List.take_succ_cons, fromLeBytes, ih hn' hdiv, UInt8.toNat_ofNat']
    omega

theorem fromLeBytes_toLeBytes {w v : Nat} (h : v < 256 ^ w) : fromLeBytes (toLeBytes w v) = v := by
  have hall := fromLeBytes_take_toLeBytes (Nat.le_refl w) h
  rwa [List.take_of_length_le (length_toLeBytes w v).le] at hall

end Bytes
