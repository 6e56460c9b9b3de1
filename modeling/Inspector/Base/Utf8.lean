import Inspector.Base.ModifiedUtf8

/-! The characters of bytes in UTF-8. -/

namespace stream

def isSurrogate (c : BitVec 16) : Bool := 0xD800#16 ≤ c && c ≤ 0xDFFF#16

/-- What is put for bytes that are not UTF-8. -/
def replacement : BitVec 16 := 0xFFFD

/-- The character of a sequence that is long enough for it. A lenient decoder takes
shorter characters too, and surrogates. -/
def sequenceChar (lenient : Bool) (least c : BitVec 16) : BitVec 16 :=
  if lenient || (least ≤ c && !isSurrogate c) then c else replacement

/-- The characters of a sequence of four bytes. -/
def supplementary (lenient : Bool) (c : BitVec 21) : List (BitVec 16) :=
  if 0x10FFFF#21 < c then [replacement]
  else if c < 0x10000#21 then
    [if lenient && !isSurrogate (c.setWidth 16) then c.setWidth 16 else replacement]
  else
    let rest := c - 0x10000#21
    [0xD800#16 ||| (rest >>> 10).setWidth 16, 0xDC00#16 ||| (rest &&& 0x3FF#21).setWidth 16]

/-- A byte that continues a sequence. -/
def continues (b : UInt8) : Bool := b.toBitVec.setWidth 16 &&& 0xC0#16 = 0x80#16

/-- `new String(bytes, "utf8")`. What becomes of bytes that are not UTF-8 is left open
by its documentation: the decoder of the runtime is lenient or it is not. -/
def newString (lenient : Bool) : List UInt8 → List (BitVec 16)
  | [] => []
  | a :: rest =>
    let c := a.toBitVec.setWidth 16
    if c < 0x80#16 then c :: newString lenient rest
    else if c >>> 4 = 12#16 ∨ c >>> 4 = 13#16 then
      match rest with
      | b :: after =>
        let char2 := b.toBitVec.setWidth 16
        if continues b then
          sequenceChar lenient 0x80#16 ((c &&& 0x1F#16) <<< 6 ||| (char2 &&& 0x3F#16)) :: newString lenient after
        else replacement :: newString lenient (b :: after)
      | [] => [replacement]
    else if c >>> 4 = 14#16 then
      match rest with
      | b :: d :: after =>
        let char2 := b.toBitVec.setWidth 16
        let char3 := d.toBitVec.setWidth 16
        if continues b && continues d then
          sequenceChar lenient 0x800#16
            ((c &&& 0x0F#16) <<< 12 ||| (char2 &&& 0x3F#16) <<< 6 ||| (char3 &&& 0x3F#16)) :: newString lenient after
        else replacement :: newString lenient (b :: d :: after)
      | [b] => replacement :: newString lenient [b]
      | [] => [replacement]
    else if c >>> 3 = 30#16 then
      match rest with
      | b :: d :: e :: after =>
        let char2 := b.toBitVec.setWidth 21
        let char3 := d.toBitVec.setWidth 21
        let char4 := e.toBitVec.setWidth 21
        if continues b && continues d && continues e then
          supplementary lenient ((c.setWidth 21 &&& 0x07#21) <<< 18 ||| (char2 &&& 0x3F#21) <<< 12 |||
            (char3 &&& 0x3F#21) <<< 6 ||| (char4 &&& 0x3F#21)) ++ newString lenient after
        else replacement :: newString lenient (b :: d :: e :: after)
      | [b, d] => replacement :: newString lenient [b, d]
      | [b] => replacement :: newString lenient [b]
      | [] => [replacement]
    else replacement :: newString lenient rest

/-- What a decoder makes of a character that was encoded by itself. -/
def decodedChar (lenient : Bool) (c : BitVec 16) : BitVec 16 :=
  if lenient || !isSurrogate c then c else replacement

theorem decodedChar_eq_self_iff {lenient : Bool} {c : BitVec 16} :
    decodedChar lenient c = c ↔ lenient = true ∨ isSurrogate c = false := by
  unfold decodedChar
  by_cases hkept : (lenient || !isSurrogate c) = true
  · rw [if_pos hkept]
    simpa using hkept
  · rw [if_neg hkept]
    obtain ⟨hstrict, hsurrogate⟩ : lenient = false ∧ isSurrogate c = true := by simpa using hkept
    constructor
    · rintro rfl
      cases hsurrogate
    · rintro (hlenient | hnot)
      · rw [hlenient] at hstrict
        cases hstrict
      · rw [hnot] at hsurrogate
        cases hsurrogate

theorem sequenceChar_of_le {lenient : Bool} {least c : BitVec 16} (hleast : least ≤ c) :
    sequenceChar lenient least c = decodedChar lenient c := by
  simp [sequenceChar, decodedChar, hleast]

theorem isSurrogate_of_lt {c : BitVec 16} (hc : c < 0xD800#16) : isSurrogate c = false := by
  rw [isSurrogate, Bool.and_eq_false_iff]
  exact Or.inl (decide_eq_false (BitVec.not_le.mpr hc))

section Sequence

variable {a b d : UInt8} (lenient : Bool) (rest : List UInt8)

theorem newString_one (ha : a.toBitVec.setWidth 16 < 0x80#16) :
    newString lenient (a :: rest) = a.toBitVec.setWidth 16 :: newString lenient rest := by
  conv => lhs; unfold newString
  dsimp only
  rw [if_pos ha]

theorem newString_two (ha : a.toBitVec.setWidth 16 >>> 4 = 12#16 ∨ a.toBitVec.setWidth 16 >>> 4 = 13#16)
    (hb : b.toBitVec.setWidth 16 &&& 0xC0#16 = 0x80#16) :
    newString lenient (a :: b :: rest) = sequenceChar lenient 0x80#16
      ((a.toBitVec.setWidth 16 &&& 0x1F#16) <<< 6 ||| (b.toBitVec.setWidth 16 &&& 0x3F#16)) ::
        newString lenient rest := by
  have hnot : ¬ a.toBitVec.setWidth 16 < 0x80#16 := by
    rcases ha with h | h
    · exact not_lt_of_shift h (by decide)
    · exact not_lt_of_shift h (by decide)
  have hcontinues : continues b = true := decide_eq_true hb
  conv => lhs; unfold newString
  dsimp only
  rw [if_neg hnot, if_pos ha, if_pos hcontinues]

theorem newString_three (ha : a.toBitVec.setWidth 16 >>> 4 = 14#16)
    (hb : b.toBitVec.setWidth 16 &&& 0xC0#16 = 0x80#16) (hd : d.toBitVec.setWidth 16 &&& 0xC0#16 = 0x80#16) :
    newString lenient (a :: b :: d :: rest) = sequenceChar lenient 0x800#16
      ((a.toBitVec.setWidth 16 &&& 0x0F#16) <<< 12 ||| (b.toBitVec.setWidth 16 &&& 0x3F#16) <<< 6 |||
        (d.toBitVec.setWidth 16 &&& 0x3F#16)) :: newString lenient rest := by
  have hcontinues : (continues b && continues d) = true := by
    rw [Bool.and_eq_true]
    exact ⟨decide_eq_true hb, decide_eq_true hd⟩
  conv => lhs; unfold newString
  dsimp only
  rw [if_neg (not_lt_of_shift ha (by decide)), if_neg (by rw [ha]; decide), if_pos ha, if_pos hcontinues]

end Sequence

theorem newString_encodeChar (lenient : Bool) {c : BitVec 16} (hc : c ≠ 0) (rest : List UInt8) :
    newString lenient (encodeChar c ++ rest) = decodedChar lenient c :: newString lenient rest := by
  have hpos : 1#16 ≤ c := by
    rw [BitVec.le_def]
    exact Nat.one_le_iff_ne_zero.mpr fun hzero => hc (BitVec.eq_of_toNat_eq hzero)
  unfold encodeChar
  split
  · rename_i hone
    have hlow : c.toNat < 2 ^ 7 := Nat.lt_succ_of_le (BitVec.le_def.mp hone.2)
    have hsurrogate : isSurrogate c = false := by
      apply isSurrogate_of_lt
      rw [BitVec.lt_def]
      change c.toNat < 55296
      omega
    have hlt : (c.setWidth 8).setWidth 16 < 0x80#16 := by
      rw [oneByte_eq hlow]
      exact BitVec.lt_def.mpr hlow
    have hdecode := newString_one (a := ⟨c.setWidth 8⟩) lenient rest hlt
    rw [oneByte_eq hlow] at hdecode
    rw [decodedChar_eq_self_iff.mpr (Or.inr hsurrogate)]
    exact hdecode
  · rename_i hnotOne
    split
    · rename_i hthree
      have hleast : 0x800#16 ≤ c := by
        rw [BitVec.lt_def] at hthree
        exact BitVec.le_def.mpr hthree
      have hdecode := newString_three (a := ⟨(0xE0#16 ||| (c >>> 12 &&& 0x0F#16)).setWidth 8⟩)
        (b := ⟨(0x80#16 ||| (c >>> 6 &&& 0x3F#16)).setWidth 8⟩) (d := ⟨(0x80#16 ||| (c &&& 0x3F#16)).setWidth 8⟩)
        lenient rest (lead_threeBytes c) (continuation_and (c >>> 6)) (continuation_and c)
      rw [threeBytes_eq, sequenceChar_of_le hleast] at hdecode
      exact hdecode
    · rename_i hnotThree
      have hhigh : c.toNat < 2 ^ 11 := Nat.lt_succ_of_le (Nat.le_of_not_lt fun h => hnotThree (BitVec.lt_def.mpr h))
      have hleast : 0x80#16 ≤ c := by
        by_contra hnot
        apply hnotOne
        refine ⟨hpos, ?_⟩
        rw [BitVec.le_def] at hnot ⊢
        exact Nat.le_of_lt_succ (Nat.lt_of_not_le hnot)
      have hdecode := newString_two (a := ⟨(0xC0#16 ||| (c >>> 6 &&& 0x1F#16)).setWidth 8⟩)
        (b := ⟨(0x80#16 ||| (c &&& 0x3F#16)).setWidth 8⟩) lenient rest (lead_twoBytes c) (continuation_and c)
      rw [twoBytes_eq hhigh, sequenceChar_of_le hleast] at hdecode
      exact hdecode

/-- A modified encoding read as UTF-8. -/
theorem newString_encodeUTF (lenient : Bool) {s : List (BitVec 16)} (hs : 0 ∉ s) :
    newString lenient (encodeUTF s) = s.map (decodedChar lenient) := by
  induction s with
  | nil => rfl
  | cons c rest ih =>
    have hne : c ≠ 0 := fun hzero => hs (hzero ▸ List.mem_cons_self)
    have hrest : 0 ∉ rest := fun hmem => hs (List.mem_cons_of_mem _ hmem)
    change newString lenient (encodeChar c ++ encodeUTF rest) = _
    rw [newString_encodeChar lenient hne, ih hrest]
    rfl

theorem byte_ne_zero {w : Nat} {x : BitVec w} (hbit : x.getLsbD 7 = true) : (0 : UInt8) ≠ ⟨x.setWidth 8⟩ := by
  intro hzero
  have hsame : (0#8).getLsbD 7 = (x.setWidth 8).getLsbD 7 := congrArg (fun b : UInt8 => b.toBitVec.getLsbD 7) hzero
  rw [BitVec.getLsbD_setWidth, hbit] at hsame
  cases hsame

theorem zero_notMem_encodeChar (c : BitVec 16) : 0 ∉ encodeChar c := by
  unfold encodeChar
  split
  · rename_i hone
    intro hmem
    have hzero : (0#8).toNat = (c.setWidth 8).toNat := congrArg (fun b : UInt8 => b.toNat) (List.mem_singleton.mp hmem)
    obtain ⟨hleast, hmost⟩ := hone
    rw [BitVec.le_def] at hleast hmost
    change 1 ≤ c.toNat at hleast
    change c.toNat ≤ 127 at hmost
    rw [BitVec.toNat_setWidth, BitVec.toNat_ofNat] at hzero
    omega
  · split
    · simp only [List.mem_cons, List.not_mem_nil, or_false, not_or]
      exact ⟨byte_ne_zero (by simp), byte_ne_zero (by simp), byte_ne_zero (by simp)⟩
    · simp only [List.mem_cons, List.not_mem_nil, or_false, not_or]
      exact ⟨byte_ne_zero (by simp), byte_ne_zero (by simp)⟩

theorem zero_notMem_encodeUTF (s : List (BitVec 16)) : 0 ∉ encodeUTF s := by
  rw [encodeUTF, List.mem_flatMap]
  rintro ⟨c, -, hc⟩
  exact zero_notMem_encodeChar c hc

end stream
