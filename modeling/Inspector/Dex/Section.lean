import Inspector.Base.Reader

namespace inspector.dex

inductive Throwable where
  | bufferUnderflow
  | bufferOverflow
  | illegalArgument
  | indexOutOfBounds
  | negativeArraySize
  | dexException
  | invalidMark
  | outOfMemory
  deriving DecidableEq, Repr

/-- What is read from a section, from its position on. The limit of a section is the
capacity of the buffer. -/
abbrev Section := StateT Nat (Reader Throwable)

abbrev JavaString := List (BitVec 16)

namespace Section

variable {α : Type}

def throw (error : Throwable) : Section α := fun _ => .failed error

def getPosition : Section Nat := fun position => .done (position, position)

def readByte : Section UInt8 := fun position => .byte position fun
  | some b => .done (b, position + 1)
  | none => .failed .bufferUnderflow

def readShort : Section (BitVec 16) := do
  let low ← readByte
  let high ← readByte
  return high.toBitVec ++ low.toBitVec

def readUnsignedShort : Section (BitVec 32) := do return (← readShort).setWidth 32

def readInt : Section (BitVec 32) := do
  let low ← readShort
  let high ← readShort
  return high ++ low

/-- So many items, one after the other. -/
def readItems (read : Section α) : Nat → Section (List α)
  | 0 => return []
  | count + 1 => do
    let item ← read
    let items ← readItems read count
    return item :: items

/-- The items of a new array. -/
def readArray (read : Section α) (length : BitVec 32) : Section (List α) :=
  if length.msb then throw .negativeArraySize else readItems read length.toNat

def readShortArray (length : BitVec 32) : Section (List (BitVec 16)) := readArray readShort length

def readByteArray (length : Nat) : Section (List UInt8) := readItems readByte length

/-- The loop of `readUnsignedLeb128` with so many bytes left to read. -/
def unsignedLoop : Nat → BitVec 32 → Section (BitVec 32)
  | 0, _ => throw .dexException
  | left + 1, result => do
    let cur := (← readByte).toBitVec.setWidth 32
    let result := result ||| ((cur &&& 0x7f) <<< ((4 - left) * 7))
    if cur &&& 0x80 = 0 then return result else unsignedLoop left result

def readUleb128 : Section (BitVec 32) := unsignedLoop 5 0

/-- The loop of `readSignedLeb128` with so many bytes left to read. -/
def signedLoop : Nat → BitVec 32 → BitVec 32 → Section (BitVec 32)
  | 0, _, _ => throw .dexException
  | left + 1, result, signBits => do
    let cur := (← readByte).toBitVec.setWidth 32
    let result := result ||| ((cur &&& 0x7f) <<< ((4 - left) * 7))
    let signBits := signBits <<< 7
    if cur &&& 0x80 = 0 then return if signBits.sshiftRight 1 &&& result = 0 then result else result ||| signBits
    else signedLoop left result signBits

def readSleb128 : Section (BitVec 32) := signedLoop 5 0 (-1)

/-- The characters up to a zero byte, into an array with so much room. -/
def decode : Nat → Section JavaString
  | 0 => do if (← readByte) = 0 then return [] else throw .indexOutOfBounds
  | room + 1 => do
    let a := (← readByte).toBitVec
    if a = 0 then return []
    else if a < 0x80 then return a.setWidth 16 :: (← decode room)
    else if a &&& 0xe0 = 0xc0 then
      let b := (← readByte).toBitVec
      if b &&& 0xc0 ≠ 0x80 then throw .dexException
      else return ((a &&& 0x1f).setWidth 16 <<< 6 ||| (b &&& 0x3f).setWidth 16) :: (← decode room)
    else if a &&& 0xf0 = 0xe0 then
      let b := (← readByte).toBitVec
      let c := (← readByte).toBitVec
      if b &&& 0xc0 ≠ 0x80 || c &&& 0xc0 ≠ 0x80 then throw .dexException
      else return ((a &&& 0x0f).setWidth 16 <<< 12 ||| (b &&& 0x3f).setWidth 16 <<< 6 |||
        (c &&& 0x3f).setWidth 16) :: (← decode room)
    else throw .dexException

section Bounded

variable (capacity : Nat)

/-- `position(newPosition)` on the buffer of a section. -/
def setPosition (newPosition : Nat) : Section Unit := fun _ =>
  if newPosition ≤ capacity then .done ((), newPosition) else .failed .illegalArgument

def skip (count : Nat) : Section Unit := do setPosition capacity ((← getPosition) + count)

def alignToFourBytes : Section Unit := do setPosition capacity (((← getPosition) + 3) / 4 * 4)

/-- The types of a list. -/
def readTypeList : Section (List (BitVec 16)) := do
  let size ← readInt
  let types ← readShortArray size
  alignToFourBytes capacity
  return types

/-- The string that the item at the position points to. -/
def readString : Section JavaString := do
  let offset ← readInt
  let savedPosition ← getPosition
  if offset.msb then throw .illegalArgument else
  setPosition capacity offset.toNat
  let expectedLength ← readUleb128
  if expectedLength.msb then throw .negativeArraySize else
  let result ← decode expectedLength.toNat
  if result.length ≠ expectedLength.toNat then throw .dexException else
  setPosition capacity savedPosition
  return result

end Bounded

end Section

end inspector.dex
