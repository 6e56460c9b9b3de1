import Mathlib.Algebra.Ring.Nat
import Mathlib.Tactic.Common

namespace inspector.unicorn

inductive Reg where
  | R0
  | R1
  | R2
  | R3
  | SP
  | LR
  | C13_C0_3
  | C1_C0_2
  | FPEXC
  deriving DecidableEq, Repr

def getRegArgs : List Reg := [.R0, .R1, .R2, .R3]

def ALIGN_SIZE_BASE : BitVec 32 := 16

/-- The arithmetic is that of an `int`. -/
def alignSize (size : BitVec 32) : BitVec 32 := (size.sdiv ALIGN_SIZE_BASE + 1) * ALIGN_SIZE_BASE

/-- The room for a block of so many bytes, of which one more is never enough. -/
def room (n : Nat) : Nat := (n / 16 + 1) * 16

theorem lt_room (n : Nat) : n < room n := by
  unfold room
  omega

theorem room_le (n : Nat) : room n ≤ n + 16 := by
  unfold room
  omega

theorem sixteen_dvd_room (n : Nat) : 16 ∣ room n := ⟨n / 16 + 1, Nat.mul_comm _ _⟩

theorem toNat_alignSize {n : Nat} (hn : n < 2 ^ 31 - 16) : (alignSize (BitVec.ofNat 32 n)).toNat = room n := by
  have hmsb : (BitVec.ofNat 32 n).msb = false := by
    rw [BitVec.msb_eq_false_iff_two_mul_lt, BitVec.toNat_ofNat]
    omega
  have hdiv : (BitVec.ofNat 32 n).sdiv ALIGN_SIZE_BASE = BitVec.ofNat 32 (n / 16) := by
    have hbase : ALIGN_SIZE_BASE.msb = false := rfl
    rw [BitVec.sdiv_eq, hmsb, hbase]
    apply BitVec.eq_of_toNat_eq
    change ((BitVec.ofNat 32 n).udiv ALIGN_SIZE_BASE).toNat = _
    rw [BitVec.udiv_eq, BitVec.toNat_udiv, BitVec.toNat_ofNat, BitVec.toNat_ofNat]
    change n % 2 ^ 32 / 16 = _
    omega
  rw [alignSize, hdiv, BitVec.toNat_mul, BitVec.toNat_add, BitVec.toNat_ofNat]
  change (n / 16 % 2 ^ 32 + 1) % 2 ^ 32 * 16 % 2 ^ 32 = room n
  unfold room
  omega

/-- A heap that has moved on by a block. -/
theorem toNat_add_alignSize {heap : BitVec 64} {n : Nat} (hn : n < 2 ^ 31 - 16) (hheap : heap.toNat < 2 ^ 32) :
    (heap + (alignSize (BitVec.ofNat 32 n)).signExtend 64).toNat = heap.toNat + room n := by
  have hsize := toNat_alignSize hn
  have hle := room_le n
  have hmsb : (alignSize (BitVec.ofNat 32 n)).msb = false := by
    rw [BitVec.msb_eq_false_iff_two_mul_lt, hsize]
    omega
  rw [BitVec.signExtend_eq_setWidth_of_msb_false hmsb, BitVec.toNat_add, BitVec.toNat_setWidth, hsize]
  omega

end inspector.unicorn
