import Inspector.Base.OnesComplement
import Mathlib.Data.BitVec

open onesComplement

namespace inspector.netguard.jni

/-- The loop over the words of the buffer. -/
def sumLoop : List UInt8 → BitVec 32 → BitVec 32
  | [], sum => sum
  | [a], sum => sum + a.toBitVec.setWidth 32
  | a :: b :: rest, sum => sumLoop rest (sum + (b.toBitVec ++ a.toBitVec).setWidth 32)

theorem toNat_carries (sum : BitVec 32) : (sum >>> 16).toNat = sum.toNat / 65536 := by
  rw [BitVec.toNat_ushiftRight, Nat.shiftRight_eq_div_pow]

theorem toNat_low (sum : BitVec 32) : (sum &&& 0xFFFF#32).toNat = sum.toNat % 65536 := by
  rw [BitVec.toNat_and]
  exact Nat.and_two_pow_sub_one_eq_mod sum.toNat 16

theorem carries_eq_zero_iff (sum : BitVec 32) : sum >>> 16 = 0#32 ↔ sum.toNat < 65536 := by
  rw [← BitVec.toNat_inj, toNat_carries, BitVec.toNat_zero]
  omega

/-- The sum of the low half and of the carries. -/
theorem toNat_carry (sum : BitVec 32) :
    ((sum &&& 0xFFFF#32) + (sum >>> 16)).toNat = sum.toNat % 65536 + sum.toNat / 65536 := by
  have hlt := sum.isLt
  rw [BitVec.toNat_add, toNat_low, toNat_carries, Nat.mod_eq_of_lt (by omega)]

/-- The loop over the carries. -/
def carryLoop (sum : BitVec 32) : BitVec 32 :=
  if sum >>> 16 = 0#32 then sum else carryLoop ((sum &&& 0xFFFF#32) + (sum >>> 16))
termination_by sum.toNat
decreasing_by
  rename_i hcarry
  rw [carries_eq_zero_iff] at hcarry
  rw [toNat_carry]
  omega

def calc_checksum (start : BitVec 16) (buffer : List UInt8) : BitVec 16 :=
  (carryLoop (sumLoop buffer (start.setWidth 32))).setWidth 16

theorem toNat_sumLoop (buffer : List UInt8) (sum : BitVec 32) :
    (sumLoop buffer sum).toNat = (sum.toNat + wordSum buffer) % 2 ^ 32 := by
  induction buffer using wordSum.induct generalizing sum with
  | case1 =>
    rw [sumLoop, wordSum, Nat.add_zero, Nat.mod_eq_of_lt sum.isLt]
  | case2 a =>
    have ha : (a.toBitVec.setWidth 32).toNat = a.toNat := BitVec.toNat_setWidth_of_le (by omega)
    rw [sumLoop, wordSum, BitVec.toNat_add, ha]
  | case3 a b rest ih =>
    have hword : ((b.toBitVec ++ a.toBitVec).setWidth 32).toNat = a.toNat + 256 * b.toNat := by
      rw [BitVec.toNat_setWidth_of_le (by omega), BitVec.toNat_append, ← Nat.shiftLeft_add_eq_or_of_lt a.toBitVec.isLt,
        Nat.shiftLeft_eq]
      simp only [UInt8.toNat_toBitVec]
      omega
    rw [sumLoop, ih, wordSum, BitVec.toNat_add, hword]
    omega

theorem toNat_carryLoop (sum : BitVec 32) : (carryLoop sum).toNat = fold sum.toNat := by
  induction sum using carryLoop.induct with
  | case1 sum hzero => rw [carryLoop, if_pos hzero, fold, if_pos ((carries_eq_zero_iff sum).mp hzero)]
  | case2 sum hcarry ih =>
    rw [carryLoop, if_neg hcarry, ih, toNat_carry, fold.eq_def sum.toNat,
      if_neg (mt (carries_eq_zero_iff sum).mpr hcarry)]

/-- For a buffer that is not too long, `calc_checksum` is the folded sum. -/
theorem toNat_calc_checksum (start : BitVec 16) {buffer : List UInt8} (hlength : buffer.length ≤ 2 ^ 16) :
    (calc_checksum start buffer).toNat = fold (start.toNat + wordSum buffer) := by
  have hstart := start.isLt
  have hsum := wordSum_le buffer
  have hword : wordSum buffer ≤ 65535 * 32768 := hsum.trans (Nat.mul_le_mul_left _ (by omega))
  have hwide : (start.setWidth 32).toNat = start.toNat := BitVec.toNat_setWidth_of_le (by omega)
  rw [calc_checksum, BitVec.toNat_setWidth, toNat_carryLoop, toNat_sumLoop, hwide,
    Nat.mod_eq_of_lt (fold_lt _), Nat.mod_eq_of_lt (by omega)]

end inspector.netguard.jni
