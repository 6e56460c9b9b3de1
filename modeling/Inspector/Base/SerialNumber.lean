import Mathlib.Algebra.Order.Ring.Int
import Mathlib.Tactic.Common

/-! Numbers of 32 bits that count the positions of a stream, and wrap around. -/

namespace serial

variable {start : BitVec 32} {i j : Int}

/-- The number of a position. -/
def number (start : BitVec 32) (i : Int) : BitVec 32 := start + BitVec.ofInt 32 i

@[simp] theorem number_zero : number start 0 = start := by simp [number]

theorem number_add (start : BitVec 32) (i j : Int) : number start (i + j) = number start i + BitVec.ofInt 32 j := by
  rw [number, number, BitVec.ofInt_add, BitVec.add_assoc]

theorem number_add_nat (start : BitVec 32) (i : Int) (n : Nat) :
    number start (i + n) = number start i + BitVec.ofNat 32 n := by
  rw [number_add, BitVec.ofInt_natCast]

theorem number_add_one (start : BitVec 32) (i : Int) : number start (i + 1) = number start i + 1 :=
  number_add_nat start i 1

theorem number_sub_one (start : BitVec 32) (i : Int) : number start (i - 1) = number start i - 1 := by
  rw [BitVec.eq_sub_iff_add_eq, ← number_add_one, Int.sub_add_cancel]

theorem number_sub_number (start : BitVec 32) (i j : Int) :
    number start j - number start i = BitVec.ofInt 32 (j - i) := by
  rw [BitVec.sub_eq_iff_eq_add, BitVec.add_comm, ← number_add]
  congr 1
  omega

theorem toNat_number_sub (start : BitVec 32) (hle : i ≤ j) (hnear : j < i + 2 ^ 32) :
    (number start j - number start i).toNat = (j - i).toNat := by
  rw [number_sub_number, BitVec.toNat_ofInt]
  omega

/-- Positions that are not a whole turn apart have numbers of their own. -/
theorem number_inj (hbelow : i < j + 2 ^ 32) (habove : j < i + 2 ^ 32) : number start i = number start j ↔ i = j := by
  constructor
  · intro hnumber
    rcases Int.le_total i j with hle | hle
    · have hzero := toNat_number_sub start hle habove
      rw [hnumber, BitVec.sub_self, BitVec.toNat_zero] at hzero
      omega
    · have hzero := toNat_number_sub start hle hbelow
      rw [hnumber, BitVec.sub_self, BitVec.toNat_zero] at hzero
      omega
  · rintro rfl
    rfl

end serial
