import Inspector.Base.Overwrite
import Inspector.Dex.Dex

namespace inspector.dex

/-- A buffer that the caller holds, with its mark. -/
structure DirectBuffer where
  bytes : List UInt8
  position : Nat
  limit : Nat
  mark : Option Nat
  position_le : position ≤ limit
  limit_le : limit ≤ bytes.length
  mark_le : ∀ m ∈ mark, m ≤ position

namespace DirectBuffer

def setMark (b : DirectBuffer) : DirectBuffer :=
  { b with mark := some b.position, mark_le := by simp }

/-- The mark is discarded when it is larger than the new position. -/
def setPosition (b : DirectBuffer) (newPosition : Nat) (hlimit : newPosition ≤ b.limit) : DirectBuffer :=
  { b with
    position := newPosition
    mark := b.mark.filter (· ≤ newPosition)
    position_le := hlimit
    mark_le := by simp [Option.filter_eq_some_iff] }

/-- The position and the mark are moved down to the new limit. -/
def setLimit (b : DirectBuffer) (newLimit : Nat) (hcapacity : newLimit ≤ b.bytes.length) : DirectBuffer :=
  { b with
    position := min b.position newLimit
    limit := newLimit
    mark := b.mark.filter (· ≤ newLimit)
    position_le := Nat.min_le_right _ _
    limit_le := hcapacity
    mark_le := by
      intro m hm
      have hmark := b.mark_le m
      simp only [Option.mem_def, Option.filter_eq_some_iff, decide_eq_true_eq] at hm hmark
      have := hmark hm.1
      omega }

def overwrite (b : DirectBuffer) (index : Nat) (data : List UInt8) : DirectBuffer :=
  { b with
    bytes := b.bytes.overwrite index data
    limit_le := by simpa using b.limit_le }

/-- `reset` goes back to the mark. -/
def reset (b : DirectBuffer) : Except Throwable DirectBuffer :=
  match hmark : b.mark with
  | some m => .ok {
      b with
      position := m
      position_le := Nat.le_trans (b.mark_le m hmark) b.position_le
      mark_le := by simp [hmark] }
  | none => .error .invalidMark

end DirectBuffer

/-- Code that moves the position and the limit of a buffer, also when it throws. -/
abbrev BufferM := ExceptT Throwable (StateM DirectBuffer)

namespace BufferM

/-- The absolute `get`. -/
def getAt (index : Nat) : BufferM UInt8 := do
  let b ← get
  if index < b.limit then return b.bytes.getD index 0 else throw .indexOutOfBounds

def position (newPosition : BitVec 32) : BufferM Unit := do
  let b ← get
  if hlimit : ¬ newPosition.msb ∧ newPosition.toNat ≤ b.limit then set (b.setPosition newPosition.toNat hlimit.2)
  else throw .illegalArgument

def limit (newLimit : BitVec 32) : BufferM Unit := do
  let b ← get
  if hcapacity : ¬ newLimit.msb ∧ newLimit.toNat ≤ b.bytes.length then
    set (b.setLimit newLimit.toNat hcapacity.2)
  else throw .illegalArgument

/-- The relative `getInt`, in little endian. -/
def getInt : BufferM (BitVec 32) := do
  let b ← get
  if hroom : b.position + 4 ≤ b.limit then
    set (b.setPosition (b.position + 4) hroom)
    match (Section.readInt b.position).run b.bytes with
    | .ok (i, _) => return i
    | .error e => throw e
  else throw .bufferUnderflow

end BufferM

/-- The dex section of a buffer: where it starts, its bytes and the limit that is
checked when sections are opened. -/
structure DexSection where
  start : Nat
  data : List UInt8
  limit : Nat

namespace TableOfContents

def empty : TableOfContents where
  entry _ := { size := 0, off := -1 }
  dataSize := 0
  dataOff := 0

def readFrom (dex : Dex) : Reader Throwable TableOfContents := do
  let toc ← dex.open 0 readHeader
  let toc ← dex.open (toc.entry .mapList).off (readMap toc)
  if toc.computesSizes then return toc else .failed .dexException

end TableOfContents

namespace Dex

/-- Whether the magic number is that of an `.odex` file. -/
def isOdex : BufferM Bool := do
  if (← BufferM.getAt 0) ≠ 0x64 then return false else
  if (← BufferM.getAt 1) ≠ 0x65 then return false else
  if (← BufferM.getAt 2) ≠ 0x79 then return false else
  return (← BufferM.getAt 3) = 0x0a

/-- If it is an `.odex` file, the position and the limit are set to the dex section. -/
def dexSection : BufferM DexSection := do
  if ← isOdex then
    BufferM.position 8
    let offset ← BufferM.getInt
    let length ← BufferM.getInt
    BufferM.position offset
    BufferM.limit (offset + length)
    let b ← get
    let data := (b.bytes.drop b.position).take (b.limit - b.position)
    return { start := b.position, data, limit := data.length }
  else
    let b ← get
    return { start := 0, data := b.bytes, limit := b.limit }

def create : BufferM (Dex × DexSection) := do
  let section_ ← dexSection
  let dex : Dex := {
    capacity := section_.data.length
    limit := section_.limit
    tableOfContents := TableOfContents.empty }
  match (TableOfContents.readFrom dex).run section_.data with
  | .ok tableOfContents => return ({ dex with tableOfContents }, section_)
  | .error e => throw e

end Dex

end inspector.dex
