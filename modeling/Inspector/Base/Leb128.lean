import Mathlib.Algebra.Order.Ring.Int
import Mathlib.Tactic.Common

/-! Numbers in groups of seven bits, the lowest first. -/

namespace leb128

/-- All bytes but the last one have their high bit set. -/
inductive Encoding : List UInt8 → Prop where
  | last {b : UInt8} (hlast : b.toNat < 128) : Encoding [b]
  | more {b : UInt8} {rest : List UInt8} (hmore : 128 ≤ b.toNat) (hrest : Encoding rest) : Encoding (b :: rest)

theorem Encoding.length_pos {bytes : List UInt8} (hencoding : Encoding bytes) : 0 < bytes.length := by
  cases hencoding <;> exact Nat.succ_pos _

def value : List UInt8 → Nat
  | [] => 0
  | b :: rest => b.toNat % 128 + 128 * value rest

/-- The value in two's complement. -/
def signedValue (bytes : List UInt8) : Int := (value bytes : Int).bmod (2 ^ (7 * bytes.length))

theorem value_lt (bytes : List UInt8) : value bytes < 2 ^ (7 * bytes.length) := by
  induction bytes with
  | nil => exact Nat.zero_lt_one
  | cons b rest ih =>
    have hpow : 2 ^ (7 * (b :: rest).length) = 128 * 2 ^ (7 * rest.length) := by
      rw [List.length_cons, Nat.mul_succ, Nat.pow_add, Nat.mul_comm]
    rw [value, hpow]
    omega

/-- The next bits are put above those that are there. -/
theorem ofNat_or_shiftLeft {v y k : Nat} (hv : v < 2 ^ k) :
    BitVec.ofNat 32 v ||| BitVec.ofNat 32 y <<< k = BitVec.ofNat 32 (v + 2 ^ k * y) := by
  apply BitVec.eq_of_toNat_eq
  rw [BitVec.toNat_or, BitVec.toNat_shiftLeft, BitVec.toNat_ofNat, BitVec.toNat_ofNat, BitVec.toNat_ofNat, Nat.add_comm,
    Nat.two_pow_add_eq_or_of_lt hv, Nat.or_mod_two_pow, Nat.shiftLeft_eq, Nat.mul_comm, Nat.or_comm, Nat.mul_mod_mod]

/-- Up and down again, the highest group brings its sign along. -/
theorem shiftLeft_sshiftRight {u w s : Nat} (hu : u < 2 ^ w) (hw : w = 7 ∨ w = 14 ∨ w = 21 ∨ w = 28) (hs : w + s = 32) :
    (BitVec.ofNat 32 u <<< s).sshiftRight s = BitVec.ofInt 32 ((u : Int).bmod (2 ^ w)) := by
  apply BitVec.eq_of_toInt_eq
  rw [BitVec.toInt_sshiftRight, BitVec.toInt_shiftLeft, BitVec.toInt_ofInt, Int.shiftRight_eq_div_pow,
    BitVec.toNat_ofNat, Nat.shiftLeft_eq]
  obtain rfl : s = 32 - w := by omega
  rcases hw with rfl | rfl | rfl | rfl
  all_goals
    simp only [Int.bmod]
    omega

/-- In 35 bits the sign is above the 32 bits of a word. -/
theorem ofInt_bmod {u : Nat} : BitVec.ofInt 32 ((u : Int).bmod (2 ^ 35)) = BitVec.ofNat 32 u := by
  apply BitVec.eq_of_toInt_eq
  rw [BitVec.toInt_ofInt, BitVec.toInt_ofNat']
  simp only [Int.bmod]
  omega

end leb128
