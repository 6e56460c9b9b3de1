import Inspector.Base.Leb128
import Inspector.DexHunter.ClassData

open leb128

namespace inspector.dexhunter

section Bytes

variable {m : Memory} {ptr : BitVec 32} {b : UInt8} {rest bytes : List UInt8}

theorem u1_of_holds (hbytes : m.Holds ptr (b :: rest)) :
    m.u1 ptr = BitVec.ofNat 32 b.toNat ∧ m.Holds (ptr + 1) rest := by
  obtain ⟨hbyte, hrest⟩ := Memory.holds_cons.mp hbytes
  refine ⟨?_, hrest⟩
  rw [Memory.u1, hbyte]
  exact (BitVec.ofNat_toNat 32 b.toBitVec).symm

theorem ofNat_le_low : BitVec.ofNat 32 b.toNat ≤ 0x7f ↔ b.toNat < 128 := by
  have hb := b.toNat_lt
  rw [BitVec.le_def, BitVec.toNat_ofNat, Nat.mod_eq_of_lt (by omega)]
  exact Nat.lt_succ_iff.symm

theorem ofNat_and_low : BitVec.ofNat 32 b.toNat &&& 0x7f = BitVec.ofNat 32 (b.toNat % 128) := by
  have hb := b.toNat_lt
  apply BitVec.eq_of_toNat_eq
  rw [BitVec.toNat_and, BitVec.toNat_ofNat, BitVec.toNat_ofNat, Nat.mod_eq_of_lt (by omega),
    Nat.mod_eq_of_lt (by omega)]
  exact Nat.and_two_pow_sub_one_eq_mod b.toNat 7

/-- A byte with its high bit set is not the last one. -/
theorem u1_of_more (hbytes : m.Holds ptr (b :: rest)) (hmore : 128 ≤ b.toNat) :
    ¬ m.u1 ptr ≤ 0x7f ∧ m.u1 ptr &&& 0x7f = BitVec.ofNat 32 (b.toNat % 128) ∧ m.Holds (ptr + 1) rest := by
  obtain ⟨hbyte, hrest⟩ := u1_of_holds hbytes
  rw [hbyte, ofNat_le_low, ofNat_and_low]
  exact ⟨by omega, rfl, hrest⟩

theorem u1_of_last (hbytes : m.Holds ptr [b]) (hlast : b.toNat < 128) :
    m.u1 ptr ≤ 0x7f ∧ m.u1 ptr = BitVec.ofNat 32 b.toNat ∧ m.u1 ptr &&& 0x7f = BitVec.ofNat 32 b.toNat := by
  obtain ⟨hbyte, -⟩ := u1_of_holds hbytes
  rw [hbyte, ofNat_le_low, ofNat_and_low, Nat.mod_eq_of_lt hlast]
  exact ⟨hlast, rfl, rfl⟩

/-- What the readers find at an address, and up to which byte. -/
inductive Found (m : Memory) (ptr : BitVec 32) (bytes : List UInt8) : Prop where
  | one (hfirst : m.u1 ptr ≤ 0x7f) (hvalue : m.u1 ptr = BitVec.ofNat 32 (value bytes)) (hlength : bytes.length = 1)
  | two (hfirst : ¬ m.u1 ptr ≤ 0x7f) (hsecond : m.u1 (ptr + 1) ≤ 0x7f)
    (hvalue : m.u1 ptr &&& (0x7f : BitVec 32) ||| (m.u1 (ptr + 1) &&& 0x7f) <<< 7 = BitVec.ofNat 32 (value bytes))
    (hlength : bytes.length = 2)
  | three (hfirst : ¬ m.u1 ptr ≤ 0x7f) (hsecond : ¬ m.u1 (ptr + 1) ≤ 0x7f) (hthird : m.u1 (ptr + 2) ≤ 0x7f)
    (hvalue : m.u1 ptr &&& (0x7f : BitVec 32) ||| (m.u1 (ptr + 1) &&& 0x7f) <<< 7 ||| (m.u1 (ptr + 2) &&& 0x7f) <<< 14 =
      BitVec.ofNat 32 (value bytes)) (hlength : bytes.length = 3)
  | four (hfirst : ¬ m.u1 ptr ≤ 0x7f) (hsecond : ¬ m.u1 (ptr + 1) ≤ 0x7f) (hthird : ¬ m.u1 (ptr + 2) ≤ 0x7f)
    (hfourth : m.u1 (ptr + 3) ≤ 0x7f)
    (hvalue : m.u1 ptr &&& (0x7f : BitVec 32) ||| (m.u1 (ptr + 1) &&& 0x7f) <<< 7 |||
      (m.u1 (ptr + 2) &&& 0x7f) <<< 14 |||
      (m.u1 (ptr + 3) &&& 0x7f) <<< 21 = BitVec.ofNat 32 (value bytes)) (hlength : bytes.length = 4)
  | five (hfirst : ¬ m.u1 ptr ≤ 0x7f) (hsecond : ¬ m.u1 (ptr + 1) ≤ 0x7f) (hthird : ¬ m.u1 (ptr + 2) ≤ 0x7f)
    (hfourth : ¬ m.u1 (ptr + 3) ≤ 0x7f)
    (hvalue : m.u1 ptr &&& (0x7f : BitVec 32) ||| (m.u1 (ptr + 1) &&& 0x7f) <<< 7 |||
      (m.u1 (ptr + 2) &&& 0x7f) <<< 14 |||
      (m.u1 (ptr + 3) &&& 0x7f) <<< 21 ||| m.u1 (ptr + 4) <<< 28 = BitVec.ofNat 32 (value bytes))
    (hlength : bytes.length = 5)

theorem found_of_encoding (hencoding : Encoding bytes) (hlength : bytes.length ≤ 5) (hbytes : m.Holds ptr bytes) :
    Found m ptr bytes := by
  -- the bytes one by one, each at the address after the one before it
  cases hencoding with
  | @last a ha =>
    obtain ⟨hle, hvalue, -⟩ := u1_of_last hbytes ha
    refine .one hle ?_ rfl
    rw [hvalue, value, value, Nat.mod_eq_of_lt ha]
    rfl
  | @more a rest ha hrest =>
  obtain ⟨hfirst, hvalueA, hbytes⟩ := u1_of_more hbytes ha
  cases hrest with
  | @last b hb =>
    obtain ⟨hle, -, hvalue⟩ := u1_of_last hbytes hb
    refine .two hfirst hle ?_ rfl
    rw [hvalueA, hvalue, ofNat_or_shiftLeft (by omega)]
    simp only [value]
    congr 1
    omega
  | @more b rest hb hrest =>
  obtain ⟨hsecond, hvalueB, hbytes⟩ := u1_of_more hbytes hb
  rw [show ptr + 1 + 1 = ptr + 2 from BitVec.add_assoc ptr 1 1] at hbytes
  cases hrest with
  | @last c hc =>
    obtain ⟨hle, -, hvalue⟩ := u1_of_last hbytes hc
    refine .three hfirst hsecond hle ?_ rfl
    rw [hvalueA, hvalueB, hvalue, ofNat_or_shiftLeft (by omega), ofNat_or_shiftLeft (by omega)]
    simp only [value]
    congr 1
    omega
  | @more c rest hc hrest =>
  obtain ⟨hthird, hvalueC, hbytes⟩ := u1_of_more hbytes hc
  rw [show ptr + 2 + 1 = ptr + 3 from BitVec.add_assoc ptr 2 1] at hbytes
  cases hrest with
  | @last d hd =>
    obtain ⟨hle, -, hvalue⟩ := u1_of_last hbytes hd
    refine .four hfirst hsecond hthird hle ?_ rfl
    rw [hvalueA, hvalueB, hvalueC, hvalue, ofNat_or_shiftLeft (by omega), ofNat_or_shiftLeft (by omega),
      ofNat_or_shiftLeft (by omega)]
    simp only [value]
    congr 1
    omega
  | @more d rest hd hrest =>
  obtain ⟨hfourth, hvalueD, hbytes⟩ := u1_of_more hbytes hd
  rw [show ptr + 3 + 1 = ptr + 4 from BitVec.add_assoc ptr 3 1] at hbytes
  cases hrest with
  | @last e he =>
    obtain ⟨-, hvalue, -⟩ := u1_of_last hbytes he
    refine .five hfirst hsecond hthird hfourth ?_ rfl
    rw [hvalueA, hvalueB, hvalueC, hvalueD, hvalue, ofNat_or_shiftLeft (by omega), ofNat_or_shiftLeft (by omega),
      ofNat_or_shiftLeft (by omega), ofNat_or_shiftLeft (by omega)]
    simp only [value]
    congr 1
    omega
  | @more e rest he hrest =>
    -- there are no six bytes
    have hmore := hrest.length_pos
    simp only [List.length_cons] at hlength
    omega

/-- An unsigned value of at most five bytes is read up to its end. -/
theorem readUnsignedLeb128_of_encoding (hencoding : Encoding bytes) (hlength : bytes.length ≤ 5)
    (hbytes : m.Holds ptr bytes) :
    readUnsignedLeb128 m ptr = (BitVec.ofNat 32 (value bytes), ptr + BitVec.ofNat 32 bytes.length) := by
  have hmask : ((127 : ℕ) : BitVec 32) = 127 := rfl
  unfold readUnsignedLeb128
  dsimp only
  rw [hmask]
  cases found_of_encoding hencoding hlength hbytes with
  | one hfirst hvalue hone =>
    rw [if_pos hfirst, hvalue, hone]
    rfl
  | two hfirst hsecond hvalue htwo =>
    rw [if_neg hfirst, if_pos hsecond, hvalue, htwo]
    rfl
  | three hfirst hsecond hthird hvalue hthree =>
    rw [if_neg hfirst, if_neg hsecond, if_pos hthird, hvalue, hthree]
    rfl
  | four hfirst hsecond hthird hfourth hvalue hfour =>
    rw [if_neg hfirst, if_neg hsecond, if_neg hthird, if_pos hfourth, hvalue, hfour]
    rfl
  | five hfirst hsecond hthird hfourth hvalue hfive =>
    rw [if_neg hfirst, if_neg hsecond, if_neg hthird, if_neg hfourth, hvalue, hfive]
    rfl

theorem readSignedLeb128_of_encoding (hencoding : Encoding bytes) (hlength : bytes.length ≤ 5)
    (hbytes : m.Holds ptr bytes) :
    readSignedLeb128 m ptr = (BitVec.ofInt 32 (signedValue bytes), ptr + BitVec.ofNat 32 bytes.length) := by
  have hmask : ((127 : ℕ) : BitVec 32) = 127 := rfl
  have hlt := value_lt bytes
  unfold readSignedLeb128 signedValue
  dsimp only
  rw [hmask]
  cases found_of_encoding hencoding hlength hbytes with
  | one hfirst hvalue hone =>
    rw [hone] at hlt
    rw [if_pos hfirst, hvalue, hone, shiftLeft_sshiftRight (w := 7) hlt (by simp) rfl]
    rfl
  | two hfirst hsecond hvalue htwo =>
    rw [htwo] at hlt
    rw [if_neg hfirst, if_pos hsecond, hvalue, htwo, shiftLeft_sshiftRight (w := 14) hlt (by simp) rfl]
    rfl
  | three hfirst hsecond hthird hvalue hthree =>
    rw [hthree] at hlt
    rw [if_neg hfirst, if_neg hsecond, if_pos hthird, hvalue, hthree, shiftLeft_sshiftRight (w := 21) hlt (by simp) rfl]
    rfl
  | four hfirst hsecond hthird hfourth hvalue hfour =>
    rw [hfour] at hlt
    rw [if_neg hfirst, if_neg hsecond, if_neg hthird, if_pos hfourth, hvalue, hfour,
      shiftLeft_sshiftRight (w := 28) hlt (by simp) rfl]
    rfl
  | five hfirst hsecond hthird hfourth hvalue hfive =>
    rw [if_neg hfirst, if_neg hsecond, if_neg hthird, if_neg hfourth, hvalue, hfive]
    exact congrArg (·, _) ofInt_bmod.symm

end Bytes

end inspector.dexhunter
