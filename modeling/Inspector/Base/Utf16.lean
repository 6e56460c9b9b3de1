import Inspector.Base.Utf8

/-! The bytes of a string, whose characters above the first plane are surrogate pairs. -/

namespace stream

def isHighSurrogate (c : BitVec 16) : Bool := 0xD800#16 ≤ c && c ≤ 0xDBFF#16

def isLowSurrogate (c : BitVec 16) : Bool := 0xDC00#16 ≤ c && c ≤ 0xDFFF#16

def toCodePoint (high low : BitVec 16) : BitVec 21 :=
  ((high &&& 0x3FF#16).setWidth 21 <<< 10 ||| (low &&& 0x3FF#16).setWidth 21) + 0x10000#21

/-- The four bytes of a character above the first plane. -/
def encodeCodePoint (p : BitVec 21) : List UInt8 :=
  [⟨(0xF0#21 ||| (p >>> 18 &&& 0x07#21)).setWidth 8⟩, ⟨(0x80#21 ||| (p >>> 12 &&& 0x3F#21)).setWidth 8⟩,
    ⟨(0x80#21 ||| (p >>> 6 &&& 0x3F#21)).setWidth 8⟩, ⟨(0x80#21 ||| (p &&& 0x3F#21)).setWidth 8⟩]

/-- What is put for a surrogate without its other half. -/
def unmappable : UInt8 := 0x3F

/-- `string.getBytes("UTF-8")` -/
def getBytes : List (BitVec 16) → List UInt8
  | [] => []
  | c :: rest =>
    if c < 0x80#16 then ⟨c.setWidth 8⟩ :: getBytes rest
    else if isHighSurrogate c then
      match rest with
      | low :: after =>
        if isLowSurrogate low then encodeCodePoint (toCodePoint c low) ++ getBytes after
        else unmappable :: getBytes (low :: after)
      | [] => [unmappable]
    else if isLowSurrogate c then unmappable :: getBytes rest
    else encodeChar c ++ getBytes rest

/-- Every surrogate is one of a pair. -/
def wellFormed : List (BitVec 16) → Bool
  | [] => true
  | c :: rest =>
    if isHighSurrogate c then
      match rest with
      | low :: after => isLowSurrogate low && wellFormed after
      | [] => false
    else !isLowSurrogate c && wellFormed rest

/-- The six highest bits of a high surrogate. -/
theorem shift_of_isHighSurrogate {c : BitVec 16} (hc : isHighSurrogate c = true) : c >>> 10 = 54#16 := by
  rw [isHighSurrogate, Bool.and_eq_true, decide_eq_true_eq, decide_eq_true_eq, BitVec.le_def, BitVec.le_def] at hc
  change 0xD800 ≤ c.toNat ∧ c.toNat ≤ 0xDBFF at hc
  apply BitVec.eq_of_toNat_eq
  rw [BitVec.toNat_ushiftRight, Nat.shiftRight_eq_div_pow]
  change c.toNat / 1024 = 54
  omega

/-- The six highest bits of a low surrogate. -/
theorem shift_of_isLowSurrogate {c : BitVec 16} (hc : isLowSurrogate c = true) : c >>> 10 = 55#16 := by
  rw [isLowSurrogate, Bool.and_eq_true, decide_eq_true_eq, decide_eq_true_eq, BitVec.le_def, BitVec.le_def] at hc
  change 0xDC00 ≤ c.toNat ∧ c.toNat ≤ 0xDFFF at hc
  apply BitVec.eq_of_toNat_eq
  rw [BitVec.toNat_ushiftRight, Nat.shiftRight_eq_div_pow]
  change c.toNat / 1024 = 55
  omega

/-- A character is made of its upper six bits and its lower ten. -/
theorem or_low_of_shift {c k upper : BitVec 16} (hshift : c >>> 10 = k) (hupper : k <<< 10 = upper) :
    upper ||| (c &&& 0x3FF#16) = c := by
  subst hshift hupper
  apply BitVec.eq_of_getLsbD_eq
  intro i hi
  simp only [BitVec.getLsbD_or, BitVec.getLsbD_shiftLeft, BitVec.getLsbD_and, BitVec.getLsbD_ushiftRight]
  interval_cases i <;> simp

section CodePoint

variable (p : BitVec 21)

/-- The first of four bytes is recognised by its five highest bits. -/
theorem lead_fourBytes : ((0xF0#21 ||| (p >>> 18 &&& 0x07#21)).setWidth 8).setWidth 16 >>> 3 = 30#16 := by
  apply BitVec.eq_of_getLsbD_eq
  intro i hi
  simp only [BitVec.getLsbD_or, BitVec.getLsbD_and, BitVec.getLsbD_setWidth, BitVec.getLsbD_ushiftRight]
  interval_cases i <;> simp

/-- Every further byte is recognised as a continuation. -/
theorem continuation_codePoint : ((0x80#21 ||| (p &&& 0x3F#21)).setWidth 8).setWidth 16 &&& 0xC0#16 = 0x80#16 := by
  apply BitVec.eq_of_getLsbD_eq
  intro i hi
  simp only [BitVec.getLsbD_or, BitVec.getLsbD_and, BitVec.getLsbD_setWidth]
  interval_cases i <;> simp

/-- Four bytes hold all the bits of the code point they were made of. -/
theorem fourBytes_eq :
    ((((0xF0#21 ||| (p >>> 18 &&& 0x07#21)).setWidth 8).setWidth 16).setWidth 21 &&& 0x07#21) <<< 18 |||
      (((0x80#21 ||| (p >>> 12 &&& 0x3F#21)).setWidth 8).setWidth 21 &&& 0x3F#21) <<< 12 |||
      (((0x80#21 ||| (p >>> 6 &&& 0x3F#21)).setWidth 8).setWidth 21 &&& 0x3F#21) <<< 6 |||
      (((0x80#21 ||| (p &&& 0x3F#21)).setWidth 8).setWidth 21 &&& 0x3F#21) = p := by
  apply BitVec.eq_of_getLsbD_eq
  intro i hi
  simp only [BitVec.getLsbD_or, BitVec.getLsbD_shiftLeft, BitVec.getLsbD_and, BitVec.getLsbD_setWidth,
    BitVec.getLsbD_ushiftRight]
  interval_cases i <;> simp

end CodePoint

section Pair

variable {c low : BitVec 16}

/-- The twenty bits of a pair. -/
def pairBits (c low : BitVec 16) : BitVec 21 :=
  (c &&& 0x3FF#16).setWidth 21 <<< 10 ||| (low &&& 0x3FF#16).setWidth 21

/-- The bits of a pair of surrogates are twenty. -/
theorem pairBits_lt (c low : BitVec 16) : (pairBits c low).toNat < 2 ^ 20 := by
  apply Nat.lt_pow_two_of_testBit
  intro i hi
  change (pairBits c low).getLsbD i = false
  simp only [pairBits, BitVec.getLsbD_or, BitVec.getLsbD_shiftLeft, BitVec.getLsbD_setWidth, BitVec.getLsbD_and]
  by_cases hlast : i = 20
  · subst hlast
    simp
  · have hlarge : ¬ i < 21 := by omega
    simp [hlarge]

/-- The upper ten of them are those of the high surrogate. -/
theorem pairBits_high (c low : BitVec 16) : (pairBits c low >>> 10).setWidth 16 = c &&& 0x3FF#16 := by
  apply BitVec.eq_of_getLsbD_eq
  intro i hi
  simp only [pairBits, BitVec.getLsbD_or, BitVec.getLsbD_shiftLeft, BitVec.getLsbD_setWidth, BitVec.getLsbD_and,
    BitVec.getLsbD_ushiftRight]
  interval_cases i <;> simp

/-- The lower ten of them are those of the low surrogate. -/
theorem pairBits_low (c low : BitVec 16) : (pairBits c low &&& 0x3FF#21).setWidth 16 = low &&& 0x3FF#16 := by
  apply BitVec.eq_of_getLsbD_eq
  intro i hi
  simp only [pairBits, BitVec.getLsbD_or, BitVec.getLsbD_shiftLeft, BitVec.getLsbD_setWidth, BitVec.getLsbD_and]
  interval_cases i <;> simp

/-- The code point of a pair is taken apart into the same pair. -/
theorem supplementary_toCodePoint (lenient : Bool) (hc : isHighSurrogate c = true) (hlow : isLowSurrogate low = true) :
    supplementary lenient (toCodePoint c low) = [c, low] := by
  have hbits := pairBits_lt c low
  have hnat : (pairBits c low + 0x10000#21).toNat = (pairBits c low).toNat + 0x10000 := by
    rw [BitVec.toNat_add, BitVec.toNat_ofNat]
    omega
  have hmost : ¬ 0x10FFFF#21 < pairBits c low + 0x10000#21 := by
    rw [BitVec.lt_def, hnat, BitVec.toNat_ofNat]
    omega
  have hleast : ¬ pairBits c low + 0x10000#21 < 0x10000#21 := by
    rw [BitVec.lt_def, hnat, BitVec.toNat_ofNat]
    omega
  have hpair : toCodePoint c low = pairBits c low + 0x10000#21 := by rw [toCodePoint, pairBits]
  rw [hpair]
  unfold supplementary
  rw [if_neg hmost, if_neg hleast]
  dsimp only
  rw [BitVec.add_sub_cancel, pairBits_high, pairBits_low]
  have hfirst : 0xD800#16 ||| (c &&& 0x3FF#16) = c := or_low_of_shift (shift_of_isHighSurrogate hc) (by decide)
  have hsecond : 0xDC00#16 ||| (low &&& 0x3FF#16) = low := or_low_of_shift (shift_of_isLowSurrogate hlow) (by decide)
  rw [hfirst, hsecond]

end Pair

/-- Four bytes are decoded to the pair of their code point. -/
theorem newString_four {a b d e : UInt8} (lenient : Bool) (rest : List UInt8)
    (ha : a.toBitVec.setWidth 16 >>> 3 = 30#16)
    (hcontinues : (continues b && continues d && continues e) = true) :
    newString lenient (a :: b :: d :: e :: rest) =
      supplementary lenient (((a.toBitVec.setWidth 16).setWidth 21 &&& 0x07#21) <<< 18 |||
        (b.toBitVec.setWidth 21 &&& 0x3F#21) <<< 12 ||| (d.toBitVec.setWidth 21 &&& 0x3F#21) <<< 6 |||
        (e.toBitVec.setWidth 21 &&& 0x3F#21)) ++ newString lenient rest := by
  have hlead := congrArg BitVec.toNat ha
  rw [BitVec.toNat_ushiftRight, Nat.shiftRight_eq_div_pow] at hlead
  change _ / 8 = 30 at hlead
  have hshift (k : BitVec 16) (hk : k.toNat < 15) : ¬ a.toBitVec.setWidth 16 >>> 4 = k := by
    rintro rfl
    rw [BitVec.toNat_ushiftRight, Nat.shiftRight_eq_div_pow] at hk
    change _ / 16 < 15 at hk
    omega
  have hone : ¬ a.toBitVec.setWidth 16 < 0x80#16 := by
    rw [BitVec.lt_def]
    change ¬ _ < 128
    omega
  conv => lhs; unfold newString
  dsimp only
  rw [if_neg hone, if_neg (not_or.mpr ⟨hshift _ (by decide), hshift _ (by decide)⟩), if_neg (hshift _ (by decide)),
    if_pos ha, if_pos hcontinues]

/-- So the encoding of a code point is decoded to its pair. -/
theorem newString_encodeCodePoint (lenient : Bool) (p : BitVec 21) (rest : List UInt8) :
    newString lenient (encodeCodePoint p ++ rest) = supplementary lenient p ++ newString lenient rest := by
  have hdecode := newString_four (a := ⟨(0xF0#21 ||| (p >>> 18 &&& 0x07#21)).setWidth 8⟩)
    (b := ⟨(0x80#21 ||| (p >>> 12 &&& 0x3F#21)).setWidth 8⟩) (d := ⟨(0x80#21 ||| (p >>> 6 &&& 0x3F#21)).setWidth 8⟩)
    (e := ⟨(0x80#21 ||| (p &&& 0x3F#21)).setWidth 8⟩) lenient rest (lead_fourBytes p) (by
      rw [Bool.and_eq_true, Bool.and_eq_true]
      exact ⟨⟨decide_eq_true (continuation_codePoint _), decide_eq_true (continuation_codePoint _)⟩,
        decide_eq_true (continuation_codePoint _)⟩)
  rw [fourBytes_eq] at hdecode
  exact hdecode

/-- There are no surrogates but the high and the low ones. -/
theorem isSurrogate_of_not {c : BitVec 16} (hhigh : ¬ isHighSurrogate c = true) (hlow : ¬ isLowSurrogate c = true) :
    isSurrogate c = false := by
  rw [isHighSurrogate, Bool.and_eq_true, decide_eq_true_eq, decide_eq_true_eq, BitVec.le_def, BitVec.le_def] at hhigh
  rw [isLowSurrogate, Bool.and_eq_true, decide_eq_true_eq, decide_eq_true_eq, BitVec.le_def, BitVec.le_def] at hlow
  rw [isSurrogate, Bool.and_eq_false_iff, decide_eq_false_iff_not, decide_eq_false_iff_not, BitVec.le_def,
    BitVec.le_def]
  rw [BitVec.toNat_ofNat, BitVec.toNat_ofNat] at *
  omega

/-- A surrogate is no character of a single byte. -/
theorem not_lt_of_isHighSurrogate {c : BitVec 16} (hc : isHighSurrogate c = true) : ¬ c < 0x80#16 := by
  rw [isHighSurrogate, Bool.and_eq_true, decide_eq_true_eq, BitVec.le_def, BitVec.toNat_ofNat] at hc
  rw [BitVec.lt_def, BitVec.toNat_ofNat]
  omega

/-- A pair is encoded as one code point. -/
theorem getBytes_pair {c low : BitVec 16} (hc : isHighSurrogate c = true) (hlow : isLowSurrogate low = true)
    (after : List (BitVec 16)) :
    getBytes (c :: low :: after) = encodeCodePoint (toCodePoint c low) ++ getBytes after := by
  rw [getBytes, if_neg (not_lt_of_isHighSurrogate hc), if_pos hc, if_pos hlow]

/-- Any other character is encoded by itself. -/
theorem getBytes_single {c : BitVec 16} (hhigh : ¬ isHighSurrogate c = true) (hlow : ¬ isLowSurrogate c = true)
    (rest : List (BitVec 16)) :
    getBytes (c :: rest) = (if c < 0x80#16 then [⟨c.setWidth 8⟩] else encodeChar c) ++ getBytes rest := by
  conv => lhs; unfold getBytes
  rw [if_neg hhigh, if_neg hlow]
  split
  · rfl
  · rfl

/-- In a well-formed text a character that is no high surrogate stands alone. -/
theorem wellFormed_single {c : BitVec 16} {rest : List (BitVec 16)} (hhigh : ¬ isHighSurrogate c = true)
    (hs : wellFormed (c :: rest) = true) : ¬ isLowSurrogate c = true ∧ wellFormed rest = true := by
  rw [wellFormed.eq_def] at hs
  dsimp only at hs
  rw [if_neg hhigh, Bool.and_eq_true, Bool.not_eq_true'] at hs
  exact ⟨by simp [hs.1], hs.2⟩

/-- What is well formed is decoded to what it was. -/
theorem newString_getBytes (lenient : Bool) {s : List (BitVec 16)} (hs : wellFormed s = true) :
    newString lenient (getBytes s) = s := by
  induction s using wellFormed.induct with
  | case1 => rfl
  | case2 c hc low after ih =>
    rw [wellFormed, if_pos hc, Bool.and_eq_true] at hs
    rw [getBytes_pair hc hs.1, newString_encodeCodePoint, supplementary_toCodePoint lenient hc hs.1, ih hs.2]
    rfl
  | case3 c hc =>
    rw [wellFormed, if_pos hc] at hs
    cases hs
  | case4 c rest hc ih =>
    obtain ⟨hlow, hrest⟩ := wellFormed_single hc hs
    rw [getBytes_single hc hlow]
    by_cases hone : c < 0x80#16
    · have hsmall : c.toNat < 2 ^ 7 := BitVec.lt_def.mp hone
      have hlt : (c.setWidth 8).setWidth 16 < 0x80#16 := by rwa [oneByte_eq hsmall]
      have hdecode := newString_one (a := ⟨c.setWidth 8⟩) lenient (getBytes rest) hlt
      rw [oneByte_eq hsmall] at hdecode
      rw [if_pos hone, List.singleton_append, hdecode, ih hrest]
    · have hne : c ≠ 0 := by
        rintro rfl
        exact hone (by decide)
      have hself := decodedChar_eq_self_iff.mpr (Or.inr (isSurrogate_of_not hc hlow) : lenient = true ∨ _)
      rw [if_neg hone, newString_encodeChar lenient hne, hself, ih hrest]

/-- The encoding of a pair has no zeros. -/
theorem zero_notMem_encodeCodePoint (p : BitVec 21) : 0 ∉ encodeCodePoint p := by
  simp only [encodeCodePoint, List.mem_cons, List.not_mem_nil, or_false, not_or]
  exact ⟨byte_ne_zero (by simp), byte_ne_zero (by simp), byte_ne_zero (by simp), byte_ne_zero (by simp)⟩

/-- A string without a zero character has no zero byte. -/
theorem zero_notMem_getBytes {s : List (BitVec 16)} (hs : wellFormed s = true) (hnul : 0 ∉ s) : 0 ∉ getBytes s := by
  induction s using wellFormed.induct with
  | case1 => exact List.not_mem_nil
  | case2 c hc low after ih =>
    rw [wellFormed, if_pos hc, Bool.and_eq_true] at hs
    rw [List.mem_cons, List.mem_cons, not_or, not_or] at hnul
    rw [getBytes_pair hc hs.1, List.mem_append, not_or]
    exact ⟨zero_notMem_encodeCodePoint _, ih hs.2 hnul.2.2⟩
  | case3 c hc =>
    rw [wellFormed, if_pos hc] at hs
    cases hs
  | case4 c rest hc ih =>
    obtain ⟨hlow, hrest⟩ := wellFormed_single hc hs
    rw [List.mem_cons, not_or] at hnul
    rw [getBytes_single hc hlow, List.mem_append, not_or]
    refine ⟨?_, ih hrest hnul.2⟩
    split
    · rename_i hone
      have hsmall : c.toNat < 2 ^ 7 := BitVec.lt_def.mp hone
      rw [List.mem_singleton]
      intro hzero
      have hsame := oneByte_eq hsmall
      have hbyte : c.setWidth 8 = 0#8 := congrArg UInt8.toBitVec hzero.symm
      rw [hbyte] at hsame
      exact hnul.1 hsame
    · exact zero_notMem_encodeChar c

end stream
