import Inspector.Base.ModifiedUtf8

/-! The encodings of `java.io.DataInput` and `java.io.DataOutput`. -/

namespace stream

def writeShort (s : BitVec 16) : List UInt8 := [⟨s.extractLsb' 8 8⟩, ⟨s.extractLsb' 0 8⟩]

def writeInt (i : BitVec 32) : List UInt8 := writeShort (i.extractLsb' 16 16) ++ writeShort (i.extractLsb' 0 16)

def writeLong (l : BitVec 64) : List UInt8 := writeInt (l.extractLsb' 32 32) ++ writeInt (l.extractLsb' 0 32)

@[simp] theorem length_writeShort (s : BitVec 16) : (writeShort s).length = 2 := rfl

@[simp] theorem length_writeInt (i : BitVec 32) : (writeInt i).length = 4 := rfl

theorem writeShort_append (high low : BitVec 8) : writeShort (high ++ low) = [⟨high⟩, ⟨low⟩] := by
  rw [writeShort, BitVec.extractLsb'_append_eq_left, BitVec.extractLsb'_append_eq_right]

theorem writeInt_append (high low : BitVec 16) : writeInt (high ++ low) = writeShort high ++ writeShort low := by
  rw [writeInt, BitVec.extractLsb'_append_eq_left, BitVec.extractLsb'_append_eq_right]

theorem writeLong_append (high low : BitVec 32) : writeLong (high ++ low) = writeInt high ++ writeInt low := by
  rw [writeLong, BitVec.extractLsb'_append_eq_left, BitVec.extractLsb'_append_eq_right]

/-- A number is its high half in front of its low half. -/
theorem append_halves {n : Nat} (x : BitVec (n + n)) : x.extractLsb' n n ++ x.extractLsb' 0 n = x := by
  ext i hi
  simp only [BitVec.getElem_append, BitVec.getElem_extractLsb']
  split <;> grind

/-- What `writeUTF` puts behind the length of a string. -/
structure UTF where
  bytes : List UInt8
  length_lt : bytes.length < 2 ^ 16
  decodes : (decodeUTF bytes).isSome = true
  deriving DecidableEq

namespace UTF

variable (utf : UTF)

/-- The string that is encoded. -/
def string : List (BitVec 16) := (decodeUTF utf.bytes).get utf.decodes

def length : BitVec 16 := BitVec.ofNat 16 utf.bytes.length

@[simp] theorem toNat_length : utf.length.toNat = utf.bytes.length := by
  rw [length, BitVec.toNat_ofNat, Nat.mod_eq_of_lt utf.length_lt]

def write : List UInt8 := writeShort utf.length ++ utf.bytes

end UTF

/-- A string and its length, unless it is too long. -/
def writeUTF (s : List (BitVec 16)) : Option (List UInt8) :=
  if (encodeUTF s).length < 2 ^ 16 then some (writeShort (BitVec.ofNat 16 (encodeUTF s).length) ++ encodeUTF s)
  else none

theorem exists_of_writeUTF {s : List (BitVec 16)} {out : List UInt8} (hwrite : writeUTF s = some out) :
    ∃ utf : UTF, utf.string = s ∧ out = utf.write := by
  unfold writeUTF at hwrite
  split at hwrite
  · rename_i hlength
    cases hwrite
    have hdecode := decodeUTF_encodeUTF s
    refine ⟨⟨encodeUTF s, hlength, by rw [hdecode]; rfl⟩, ?_, rfl⟩
    simp only [UTF.string, hdecode, Option.get_some]
  · cases hwrite

end stream
