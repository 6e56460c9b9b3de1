import Mathlib.Algebra.Order.Ring.Int
import Mathlib.Tactic.Common

/-! The values of `long` as integers, and the `int` that a `long` is cut to. -/

namespace long

variable {x y : BitVec 64} {n : Nat}

theorem bmod_eq {i : Int} (hlow : -2 ^ 63 ≤ i) (hhigh : i < 2 ^ 63) : i.bmod (2 ^ 64) = i :=
  Int.bmod_eq_of_le (by omega) (by omega)

theorem toInt_add_ofNat (hn : n < 2 ^ 63) (hsum : x.toInt + n < 2 ^ 63) :
    (x + BitVec.ofNat 64 n).toInt = x.toInt + n := by
  have hlow := x.le_toInt
  rw [BitVec.toInt_add, BitVec.toInt_ofNat', Int.add_bmod_bmod]
  exact bmod_eq (by omega) hsum

/-- A sum that is too great wraps around once. -/
theorem toInt_add_ofNat_wrapped (hn : n < 2 ^ 63) (hsum : 2 ^ 63 ≤ x.toInt + n) :
    (x + BitVec.ofNat 64 n).toInt = x.toInt + n - 2 ^ 64 := by
  have hhigh := x.toInt_lt
  have hwrap : (x.toInt + n).bmod (2 ^ 64) = (x.toInt + n - 2 ^ 64).bmod (2 ^ 64) := by simp [Int.bmod_def]
  rw [BitVec.toInt_add, BitVec.toInt_ofNat', Int.add_bmod_bmod, hwrap]
  exact bmod_eq (by omega) (by omega)

/-- The difference of two numbers that are so far apart. -/
theorem sub_eq_ofNat (hdiff : y.toInt = x.toInt + n) : y - x = BitVec.ofNat 64 n := by
  apply BitVec.eq_of_toInt_eq
  rw [BitVec.toInt_sub, BitVec.toInt_ofNat', hdiff, add_sub_cancel_left]

theorem eq_add_ofNat (hdiff : y.toInt = x.toInt + n) : y = x + BitVec.ofNat 64 n := by
  rw [← sub_eq_ofNat hdiff, BitVec.add_comm, BitVec.sub_add_cancel]

theorem toNat_setWidth_ofNat (hn : n < 2 ^ 32) : ((BitVec.ofNat 64 n).setWidth 32).toNat = n := by
  rw [BitVec.toNat_setWidth, BitVec.toNat_ofNat]
  omega

theorem toInt_setWidth_ofNat (hn : n < 2 ^ 31) : ((BitVec.ofNat 64 n).setWidth 32).toInt = n := by
  have hnat := toNat_setWidth_ofNat (n := n) (by omega)
  rw [BitVec.toInt_eq_toNat_of_lt (by omega), hnat]

end long
