import Inspector.Base.Framing

open stream stream.Input

namespace inspector.io

inductive Throwable where
  | illegalArgument (type : BitVec 16)
  | negativeArraySize
  | utfDataFormat
  deriving DecidableEq, Repr

/-- The elements of an array, whose length is an `int`. -/
structure JavaArray (α : Type) where
  elements : List α
  length_lt : elements.length < 2 ^ 31
  deriving DecidableEq

namespace JavaArray

variable {α : Type} (array : JavaArray α)

def length : BitVec 32 := BitVec.ofNat 32 array.elements.length

@[simp] theorem toNat_length : array.length.toNat = array.elements.length := by
  have hlength := array.length_lt
  rw [length, BitVec.toNat_ofNat, Nat.mod_eq_of_lt (by omega)]

/-- The length and the elements. -/
def write (encode : α → List UInt8) : List UInt8 := writeInt array.length ++ array.elements.flatMap encode

end JavaArray

/-- The content of a byte array. -/
abbrev Data := JavaArray UInt8

namespace Data

def bytes (data : Data) : List UInt8 := data.elements

def write (data : Data) : List UInt8 := writeInt data.length ++ data.bytes

end Data

def readUTF : Input Throwable UTF := do
  let utflen ← readUnsignedShort
  let bytearr ← readFully utflen.toNat
  if hdecodes : (decodeUTF bytearr.1).isSome = true then
    return ⟨bytearr.1, bytearr.2.symm ▸ utflen.isLt, hdecodes⟩
  else fail .utfDataFormat

/-- A new array of the length that is read, and its elements. -/
def readArray {α : Type} (p : Input Throwable α) : Input Throwable (JavaArray α) := do
  let length ← readInt
  if hlength : length.toNat < 2 ^ 31 then
    let elements ← readItems p length.toNat
    return ⟨elements.1, elements.2.symm ▸ hlength⟩
  else fail .negativeArraySize

def readData : Input Throwable Data := readArray readByte

theorem reads_readUTF : Reads readUTF (fun utf data => data = utf.write) := by
  have hdecoded : ∀ {n : Nat} (hn : n < 2 ^ 16) (bytearr : { data : List UInt8 // data.length = n }),
      Reads (if hdecodes : (decodeUTF bytearr.1).isSome = true then
          pure ⟨bytearr.1, bytearr.2.symm ▸ hn, hdecodes⟩ else fail .utfDataFormat : Input Throwable UTF)
        (fun utf data => utf.bytes = bytearr.1 ∧ data = []) := by
    intro n hn bytearr
    split
    · rename_i hdecodes
      refine (Reads.pure _).congr fun utf data => and_congr_left' ?_
      constructor
      · rintro rfl
        rfl
      · intro hbytes
        obtain ⟨bytes, hlength, hvalid⟩ := utf
        obtain rfl : bytes = bytearr.1 := hbytes
        rfl
    · rename_i hdecodes
      refine (Reads.fail _).congr fun utf data => iff_of_false id ?_
      rintro ⟨hbytes, -⟩
      exact hdecodes (hbytes ▸ utf.decodes)
  refine (reads_readUnsignedShort.bind fun utflen =>
    (reads_readFully utflen.toNat).bind fun bytearr => hdecoded utflen.isLt bytearr).congr fun utf data => ?_
  constructor
  · rintro ⟨utflen, first, second, rfl, ⟨⟨bytearr, hlength⟩, third, fourth, rfl, ⟨hbytes, rfl⟩, rfl⟩, rfl⟩
    rw [UTF.write, UTF.length, hbytes, hlength, BitVec.ofNat_toNat, BitVec.setWidth_eq, List.append_nil]
  · rintro rfl
    refine ⟨utf.length, _, utf.bytes, rfl, ⟨⟨utf.bytes, utf.toNat_length.symm⟩, utf.bytes, [], rfl, ⟨rfl, rfl⟩, ?_⟩,
      rfl⟩
    rw [List.append_nil]

theorem reads_readArray {α : Type} {p : Input Throwable α} {encode : α → List UInt8}
    (hp : Reads p (fun a data => data = encode a)) :
    Reads (readArray p) (fun array data => data = array.write encode) := by
  have helements : ∀ length : BitVec 32,
      Reads (if hlength : length.toNat < 2 ^ 31 then do
          let elements ← readItems p length.toNat
          return ⟨elements.1, elements.2.symm ▸ hlength⟩
        else fail .negativeArraySize : Input Throwable (JavaArray α))
        (fun array data => array.elements.length = length.toNat ∧ data = array.elements.flatMap encode) := by
    intro length
    split
    · rename_i hlength
      refine ((reads_readItems hp length.toNat).map _).congr fun array data => ?_
      constructor
      · rintro ⟨⟨elements, helements⟩, rfl, rfl⟩
        exact ⟨helements, rfl⟩
      · rintro ⟨helements, rfl⟩
        exact ⟨⟨array.elements, helements⟩, rfl, rfl⟩
    · rename_i hlength
      refine (Reads.fail _).congr fun array data => iff_of_false id ?_
      rintro ⟨helements, -⟩
      exact hlength (helements ▸ array.length_lt)
  refine (reads_readInt.bind helements).congr fun array data => ?_
  constructor
  · rintro ⟨length, first, second, rfl, ⟨hlength, rfl⟩, rfl⟩
    rw [JavaArray.write, JavaArray.length, hlength, BitVec.ofNat_toNat, BitVec.setWidth_eq]
  · rintro rfl
    exact ⟨array.length, _, _, rfl, ⟨array.toNat_length.symm, rfl⟩, rfl⟩

theorem reads_readData : Reads readData (fun array data => data = array.write) := by
  refine (reads_readArray reads_readByte).congr fun array data => ?_
  rw [JavaArray.write, List.flatMap_singleton', Data.write, Data.bytes]

end inspector.io
