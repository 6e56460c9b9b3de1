import Mathlib.Algebra.Ring.Nat
import Mathlib.Data.List.Basic
import Mathlib.Tactic.Common
import Mathlib.Tactic.IntervalCases

/-! The modified UTF-8 of `java.io`. -/

namespace stream

def encodeChar (c : BitVec 16) : List UInt8 :=
  if 1 ≤ c ∧ c ≤ 0x7F then [⟨c.setWidth 8⟩]
  else if 0x07FF < c then
    [⟨(0xE0#16 ||| (c >>> 12 &&& 0x0F#16)).setWidth 8⟩, ⟨(0x80#16 ||| (c >>> 6 &&& 0x3F#16)).setWidth 8⟩,
      ⟨(0x80#16 ||| (c &&& 0x3F#16)).setWidth 8⟩]
  else [⟨(0xC0#16 ||| (c >>> 6 &&& 0x1F#16)).setWidth 8⟩, ⟨(0x80#16 ||| (c &&& 0x3F#16)).setWidth 8⟩]

def encodeUTF (s : List (BitVec 16)) : List UInt8 := s.flatMap encodeChar

/-- The characters of a modified UTF-8 encoding, if it is well formed. -/
def decodeUTF : List UInt8 → Option (List (BitVec 16))
  | [] => some []
  | a :: rest =>
    let c := a.toBitVec.setWidth 16
    if c < 0x80#16 then (decodeUTF rest).map (c :: ·)
    else if c >>> 4 = 12#16 ∨ c >>> 4 = 13#16 then
      match rest with
      | b :: rest =>
        let char2 := b.toBitVec.setWidth 16
        if char2 &&& 0xC0#16 = 0x80#16 then
          (decodeUTF rest).map (((c &&& 0x1F#16) <<< 6 ||| (char2 &&& 0x3F#16)) :: ·)
        else none
      | [] => none
    else if c >>> 4 = 14#16 then
      match rest with
      | b :: d :: rest =>
        let char2 := b.toBitVec.setWidth 16
        let char3 := d.toBitVec.setWidth 16
        if char2 &&& 0xC0#16 = 0x80#16 ∧ char3 &&& 0xC0#16 = 0x80#16 then
          (decodeUTF rest).map (((c &&& 0x0F#16) <<< 12 ||| (char2 &&& 0x3F#16) <<< 6 ||| (char3 &&& 0x3F#16)) :: ·)
        else none
      | _ => none
    else none

theorem getLsbD_eq_false {c : BitVec 16} {n i : Nat} (hc : c.toNat < 2 ^ n) (hi : n ≤ i) : c.getLsbD i = false :=
  Nat.testBit_lt_two_pow (Nat.lt_of_lt_of_le hc (Nat.pow_le_pow_right (by decide) hi))

/-- The continuation byte of a char has the two high bits that `readUTF` asks for. -/
theorem continuation_and (c : BitVec 16) :
    ((0x80#16 ||| (c &&& 0x3F#16)).setWidth 8).setWidth 16 &&& 0xC0#16 = 0x80#16 := by
  apply BitVec.eq_of_getLsbD_eq
  intro i hi
  simp only [BitVec.getLsbD_or, BitVec.getLsbD_and, BitVec.getLsbD_setWidth]
  interval_cases i <;> simp

/-- The lead byte of a group of three has the high nibble 14. -/
theorem lead_threeBytes (c : BitVec 16) :
    ((0xE0#16 ||| (c >>> 12 &&& 0x0F#16)).setWidth 8).setWidth 16 >>> 4 = 14#16 := by
  apply BitVec.eq_of_getLsbD_eq
  intro i hi
  simp only [BitVec.getLsbD_or, BitVec.getLsbD_and, BitVec.getLsbD_setWidth, BitVec.getLsbD_ushiftRight]
  interval_cases i <;> simp

/-- The lead byte of a group of two has the high nibble 12 or 13. -/
theorem lead_twoBytes (c : BitVec 16) :
    ((0xC0#16 ||| (c >>> 6 &&& 0x1F#16)).setWidth 8).setWidth 16 >>> 4 = 12#16 ∨
    ((0xC0#16 ||| (c >>> 6 &&& 0x1F#16)).setWidth 8).setWidth 16 >>> 4 = 13#16 := by
  by_cases hbit : c.getLsbD 10 = true
  · refine Or.inr (BitVec.eq_of_getLsbD_eq fun i hi => ?_)
    simp only [BitVec.getLsbD_or, BitVec.getLsbD_and, BitVec.getLsbD_setWidth, BitVec.getLsbD_ushiftRight]
    interval_cases i <;> simp_all
  · refine Or.inl (BitVec.eq_of_getLsbD_eq fun i hi => ?_)
    simp only [BitVec.getLsbD_or, BitVec.getLsbD_and, BitVec.getLsbD_setWidth, BitVec.getLsbD_ushiftRight]
    interval_cases i <;> simp_all

/-- Three bytes hold all sixteen bits of a char. -/
theorem threeBytes_eq (c : BitVec 16) :
    (((0xE0#16 ||| (c >>> 12 &&& 0x0F#16)).setWidth 8).setWidth 16 &&& 0x0F#16) <<< 12 |||
      (((0x80#16 ||| (c >>> 6 &&& 0x3F#16)).setWidth 8).setWidth 16 &&& 0x3F#16) <<< 6 |||
      (((0x80#16 ||| (c &&& 0x3F#16)).setWidth 8).setWidth 16 &&& 0x3F#16) = c := by
  apply BitVec.eq_of_getLsbD_eq
  intro i hi
  simp only [BitVec.getLsbD_or, BitVec.getLsbD_shiftLeft, BitVec.getLsbD_and, BitVec.getLsbD_setWidth,
    BitVec.getLsbD_ushiftRight]
  interval_cases i <;> simp

/-- Two bytes hold the bits of a char below 2048. -/
theorem twoBytes_eq {c : BitVec 16} (hc : c.toNat < 2 ^ 11) :
    (((0xC0#16 ||| (c >>> 6 &&& 0x1F#16)).setWidth 8).setWidth 16 &&& 0x1F#16) <<< 6 |||
      (((0x80#16 ||| (c &&& 0x3F#16)).setWidth 8).setWidth 16 &&& 0x3F#16) = c := by
  apply BitVec.eq_of_getLsbD_eq
  intro i hi
  simp only [BitVec.getLsbD_or, BitVec.getLsbD_shiftLeft, BitVec.getLsbD_and, BitVec.getLsbD_setWidth,
    BitVec.getLsbD_ushiftRight]
  by_cases hhigh : 11 ≤ i
  · rw [getLsbD_eq_false hc hhigh]
    interval_cases i <;> simp
  · interval_cases i <;> simp

/-- One byte holds the bits of a char below 128. -/
theorem oneByte_eq {c : BitVec 16} (hc : c.toNat < 2 ^ 7) : (c.setWidth 8).setWidth 16 = c := by
  apply BitVec.eq_of_toNat_eq
  rw [BitVec.toNat_setWidth, BitVec.toNat_setWidth]
  omega

theorem not_lt_of_shift {c : BitVec 16} {k : BitVec 16} (hshift : c >>> 4 = k) (hk : 8 ≤ k.toNat) : ¬ c < 0x80#16 := by
  have hdiv := congrArg BitVec.toNat hshift
  rw [BitVec.toNat_ushiftRight, Nat.shiftRight_eq_div_pow] at hdiv
  rw [BitVec.lt_def]
  change ¬ c.toNat < 128
  omega

section Decode

variable {a b d : UInt8} (rest : List UInt8)

/-- A byte below 128 is a char of its own. -/
theorem decodeUTF_one (ha : a.toBitVec.setWidth 16 < 0x80#16) :
    decodeUTF (a :: rest) = (decodeUTF rest).map (a.toBitVec.setWidth 16 :: ·) := by
  conv => lhs; unfold decodeUTF
  dsimp only
  rw [if_pos ha]

/-- A lead byte of a group of two takes one continuation byte with it. -/
theorem decodeUTF_two (ha : a.toBitVec.setWidth 16 >>> 4 = 12#16 ∨ a.toBitVec.setWidth 16 >>> 4 = 13#16)
    (hb : b.toBitVec.setWidth 16 &&& 0xC0#16 = 0x80#16) :
    decodeUTF (a :: b :: rest) = (decodeUTF rest).map
      (((a.toBitVec.setWidth 16 &&& 0x1F#16) <<< 6 ||| (b.toBitVec.setWidth 16 &&& 0x3F#16)) :: ·) := by
  have hnot : ¬ a.toBitVec.setWidth 16 < 0x80#16 := by
    rcases ha with h | h
    · exact not_lt_of_shift h (by decide)
    · exact not_lt_of_shift h (by decide)
  conv => lhs; unfold decodeUTF
  dsimp only
  rw [if_neg hnot, if_pos ha, if_pos hb]

/-- A lead byte of a group of three takes two continuation bytes with it. -/
theorem decodeUTF_three (ha : a.toBitVec.setWidth 16 >>> 4 = 14#16)
    (hb : b.toBitVec.setWidth 16 &&& 0xC0#16 = 0x80#16) (hd : d.toBitVec.setWidth 16 &&& 0xC0#16 = 0x80#16) :
    decodeUTF (a :: b :: d :: rest) = (decodeUTF rest).map (((a.toBitVec.setWidth 16 &&& 0x0F#16) <<< 12 |||
      (b.toBitVec.setWidth 16 &&& 0x3F#16) <<< 6 ||| (d.toBitVec.setWidth 16 &&& 0x3F#16)) :: ·) := by
  conv => lhs; unfold decodeUTF
  dsimp only
  rw [if_neg (not_lt_of_shift ha (by decide)), if_neg (by rw [ha]; decide), if_pos ha, if_pos ⟨hb, hd⟩]

end Decode

/-- The group of bytes of a char is read back as that char, whatever follows it. -/
theorem decodeUTF_encodeChar (c : BitVec 16) (rest : List UInt8) :
    decodeUTF (encodeChar c ++ rest) = (decodeUTF rest).map (c :: ·) := by
  unfold encodeChar
  split
  · rename_i hone
    have hc : c.toNat < 2 ^ 7 := Nat.lt_succ_of_le (BitVec.le_def.mp hone.2)
    have hlt : (c.setWidth 8).setWidth 16 < 0x80#16 := by
      rw [oneByte_eq hc]
      exact BitVec.lt_def.mpr hc
    have hdecode := decodeUTF_one (a := ⟨c.setWidth 8⟩) rest hlt
    rw [oneByte_eq hc] at hdecode
    exact hdecode
  · split
    · have hdecode := decodeUTF_three (a := ⟨(0xE0#16 ||| (c >>> 12 &&& 0x0F#16)).setWidth 8⟩)
        (b := ⟨(0x80#16 ||| (c >>> 6 &&& 0x3F#16)).setWidth 8⟩) (d := ⟨(0x80#16 ||| (c &&& 0x3F#16)).setWidth 8⟩)
        rest (lead_threeBytes c) (continuation_and (c >>> 6)) (continuation_and c)
      rw [threeBytes_eq] at hdecode
      exact hdecode
    · rename_i hthree
      have hc : c.toNat < 2 ^ 11 := Nat.lt_succ_of_le (Nat.le_of_not_lt fun h => hthree (BitVec.lt_def.mpr h))
      have hdecode := decodeUTF_two (a := ⟨(0xC0#16 ||| (c >>> 6 &&& 0x1F#16)).setWidth 8⟩)
        (b := ⟨(0x80#16 ||| (c &&& 0x3F#16)).setWidth 8⟩) rest (lead_twoBytes c) (continuation_and c)
      rw [twoBytes_eq hc] at hdecode
      exact hdecode

/-- A text is read back from its modified UTF-8 bytes. -/
theorem decodeUTF_encodeUTF (s : List (BitVec 16)) : decodeUTF (encodeUTF s) = some s := by
  induction s with
  | nil => rfl
  | cons c rest ih =>
    change decodeUTF (encodeChar c ++ encodeUTF rest) = _
    rw [decodeUTF_encodeChar, ih]
    rfl

end stream
