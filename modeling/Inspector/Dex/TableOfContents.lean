import Mathlib.Data.List.Sort
import Inspector.Dex.Section

namespace inspector.dex

inductive SectionType where
  | header | stringIds | typeIds | protoIds | fieldIds | methodIds | classDefs | mapList | typeLists
  | annotationSetRefLists | annotationSets | classDatas | codes | stringDatas | debugInfos | annotations
  | encodedArrays | annotationsDirectories
  deriving DecidableEq, Repr

namespace SectionType

/-- The sections in the order of their array. -/
def sections : List SectionType :=
  [header, stringIds, typeIds, protoIds, fieldIds, methodIds, classDefs, mapList, typeLists,
    annotationSetRefLists, annotationSets, classDatas, codes, stringDatas, debugInfos, annotations,
    encodedArrays, annotationsDirectories]

def type : SectionType → BitVec 16
  | header => 0x0000
  | stringIds => 0x0001
  | typeIds => 0x0002
  | protoIds => 0x0003
  | fieldIds => 0x0004
  | methodIds => 0x0005
  | classDefs => 0x0006
  | mapList => 0x1000
  | typeLists => 0x1001
  | annotationSetRefLists => 0x1002
  | annotationSets => 0x1003
  | classDatas => 0x2000
  | codes => 0x2001
  | stringDatas => 0x2002
  | debugInfos => 0x2003
  | annotations => 0x2004
  | encodedArrays => 0x2005
  | annotationsDirectories => 0x2006

def getSection (type : BitVec 16) : Option SectionType := sections.find? fun s => s.type = type

end SectionType

/-- The size and the offset of a section. -/
structure Entry where
  size : BitVec 32
  off : BitVec 32
  deriving DecidableEq, Repr

/-- The fields of the table that reading depends on. -/
structure TableOfContents where
  entry : SectionType → Entry
  dataSize : BitVec 32
  dataOff : BitVec 32

namespace TableOfContents

open Section

def set (toc : TableOfContents) (type : SectionType) (entry : Entry) : TableOfContents :=
  { toc with entry := fun t => if t = type then entry else toc.entry t }

/-- Only the magic number of API level 13 is accepted. -/
def magic : List UInt8 := [0x64, 0x65, 0x78, 0x0a, 0x30, 0x33, 0x35, 0x00]

def HEADER_ITEM : BitVec 32 := 0x70

def ENDIAN_TAG : BitVec 32 := 0x12345678

/-- A size and the offset after it. -/
def readEntry : Section Entry := do
  let size ← readInt
  let off ← readInt
  return { size, off }

def readHeader : Section TableOfContents := do
  let magicIn ← readByteArray 8
  if magicIn ≠ magic then throw .dexException else
  let _checksum ← readInt
  let _signature ← readByteArray 20
  let _fileSize ← readInt
  let headerSize ← readInt
  if headerSize ≠ HEADER_ITEM then throw .dexException else
  let endianTag ← readInt
  if endianTag ≠ ENDIAN_TAG then throw .dexException else
  let _linkSize ← readInt
  let _linkOff ← readInt
  let mapOff ← readInt
  if mapOff = 0 then throw .dexException else
  let stringIds ← readEntry
  let typeIds ← readEntry
  let protoIds ← readEntry
  let fieldIds ← readEntry
  let methodIds ← readEntry
  let classDefs ← readEntry
  let dataSize ← readInt
  let dataOff ← readInt
  return {
    entry
      | .mapList => { size := 0, off := mapOff }
      | .stringIds => stringIds
      | .typeIds => typeIds
      | .protoIds => protoIds
      | .fieldIds => fieldIds
      | .methodIds => methodIds
      | .classDefs => classDefs
      | _ => { size := 0, off := -1 }
    dataSize
    dataOff }

/-- The loop of `readMap`: so many items, with the offset of the previous one. -/
def readItems : Nat → Option (BitVec 32) → TableOfContents → Section TableOfContents
  | 0, _, toc => return toc
  | count + 1, previous, toc => do
    let type ← readShort
    let _unused ← readShort
    let size ← readInt
    let off ← readInt
    match SectionType.getSection type with
    | none => throw .illegalArgument
    | some type =>
      let old := toc.entry type
      if (old.size ≠ 0 && old.size ≠ size) || (old.off ≠ -1 && old.off ≠ off) then throw .dexException
      else if previous.any fun previousOff => off.slt previousOff then throw .dexException
      else readItems count (some off) (toc.set type { size, off })

def readMap (toc : TableOfContents) : Section TableOfContents := do
  let mapSize ← readInt
  readItems (if mapSize.msb then 0 else mapSize.toNat) none toc

/-- The loop of `computeSizesFromOffsets`: each section starts within the one after
it. -/
def ordered (last : BitVec 32) : List (BitVec 32) → Bool
  | [] => true
  | off :: rest => if off = -1 then ordered last rest else off.sle last && ordered off rest

/-- Whether `computeSizesFromOffsets` goes through. -/
def computesSizes (toc : TableOfContents) : Bool :=
  let offsets := SectionType.sections.map fun type => (toc.entry type).off
  ordered (toc.dataOff + toc.dataSize) (offsets.insertionSort fun a b => a.sle b).reverse

end TableOfContents

end inspector.dex
