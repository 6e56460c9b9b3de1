import Inspector.Dex.TableOfContents

namespace inspector.dex

structure MethodId where
  declaringClassIndex : BitVec 32
  protoIndex : BitVec 32
  nameIndex : BitVec 32

structure ProtoId where
  shortyIndex : BitVec 32
  returnTypeIndex : BitVec 32
  parametersOffset : BitVec 32

structure ClassDef where
  typeIndex : BitVec 32
  classDataOffset : BitVec 32

structure Field where
  fieldIndex : BitVec 32
  accessFlags : BitVec 32
  deriving DecidableEq, Repr

structure Method where
  methodIndex : BitVec 32
  accessFlags : BitVec 32
  codeOffset : BitVec 32
  deriving DecidableEq, Repr

structure ClassData where
  staticFields : List Field
  instanceFields : List Field
  directMethods : List Method
  virtualMethods : List Method

def ClassData.allMethods (data : ClassData) : List Method := data.directMethods ++ data.virtualMethods

structure Try where
  startAddress : BitVec 32
  instructionCount : BitVec 32
  catchHandlerIndex : Nat
  deriving DecidableEq, Repr

structure CatchHandler where
  typeIndexes : List (BitVec 32)
  addresses : List (BitVec 32)
  catchAllAddress : BitVec 32
  offset : Nat
  deriving DecidableEq, Repr

structure Code where
  registersSize : BitVec 32
  insSize : BitVec 32
  outsSize : BitVec 32
  debugInfoOffset : BitVec 32
  instructions : List (BitVec 16)
  tries : List Try
  catchHandlers : List CatchHandler
  deriving DecidableEq, Repr

/-- What a dex knows of its buffer besides the bytes. -/
structure Dex where
  capacity : Nat
  limit : Nat
  tableOfContents : TableOfContents

/-- Whether a section can be opened at a position. -/
def Dex.opens (dex : Dex) (position : Nat) : Bool := position < dex.capacity && position ≤ dex.limit

variable {α : Type}

namespace Section

def readProtoId : Section ProtoId := do
  let shortyIndex ← readInt
  let returnTypeIndex ← readInt
  let parametersOffset ← readInt
  return { shortyIndex, returnTypeIndex, parametersOffset }

def readMethodId : Section MethodId := do
  let declaringClassIndex ← readUnsignedShort
  let protoIndex ← readUnsignedShort
  let nameIndex ← readInt
  return { declaringClassIndex, protoIndex, nameIndex }

def readClassDef : Section ClassDef := do
  let typeIndex ← readInt
  let _accessFlags ← readInt
  let _supertype ← readInt
  let _interfacesOffset ← readInt
  let _sourceFileIndex ← readInt
  let _annotationsOffset ← readInt
  let classDataOffset ← readInt
  let _staticValuesOffset ← readInt
  return { typeIndex, classDataOffset }

/-- The loop of `readFields`. An index is stored as the difference to the one before. -/
def fieldLoop : Nat → BitVec 32 → Section (List Field)
  | 0, _ => return []
  | count + 1, fieldIndex => do
    let fieldIndex := fieldIndex + (← readUleb128)
    let accessFlags ← readUleb128
    let fields ← fieldLoop count fieldIndex
    return { fieldIndex, accessFlags } :: fields

def readFields (count : BitVec 32) : Section (List Field) :=
  if count.msb then throw .negativeArraySize else fieldLoop count.toNat 0

/-- The loop of `readMethods`. -/
def methodLoop : Nat → BitVec 32 → Section (List Method)
  | 0, _ => return []
  | count + 1, methodIndex => do
    let methodIndex := methodIndex + (← readUleb128)
    let accessFlags ← readUleb128
    let codeOffset ← readUleb128
    let methods ← methodLoop count methodIndex
    return { methodIndex, accessFlags, codeOffset } :: methods

def readMethods (count : BitVec 32) : Section (List Method) :=
  if count.msb then throw .negativeArraySize else methodLoop count.toNat 0

def readClassData : Section ClassData := do
  let staticFieldsSize ← readUleb128
  let instanceFieldsSize ← readUleb128
  let directMethodsSize ← readUleb128
  let virtualMethodsSize ← readUleb128
  let staticFields ← readFields staticFieldsSize
  let instanceFields ← readFields instanceFieldsSize
  let directMethods ← readMethods directMethodsSize
  let virtualMethods ← readMethods virtualMethodsSize
  return { staticFields, instanceFields, directMethods, virtualMethods }

def readHandler : Section (BitVec 32 × BitVec 32) := do
  let typeIndex ← readUleb128
  let address ← readUleb128
  return (typeIndex, address)

def readCatchHandler (offset : Nat) : Section CatchHandler := do
  let size ← readSleb128
  let handlersCount := if size.msb then -size else size
  let handlers ← readArray readHandler handlersCount
  let catchAllAddress ← if size.sle 0 then readUleb128 else pure (-1)
  return {
    typeIndexes := handlers.map Prod.fst
    addresses := handlers.map Prod.snd
    catchAllAddress
    offset }

/-- The handlers, each with its offset from the start of the list. -/
def readCatchHandlers : Section (List CatchHandler) := do
  let baseOffset ← getPosition
  let catchHandlersSize ← readUleb128
  readArray (do readCatchHandler ((← getPosition) - baseOffset)) catchHandlersSize

def findCatchHandlerIndex (catchHandlers : List CatchHandler) (offset : BitVec 32) : Section Nat :=
  match catchHandlers.findIdx? fun handler => handler.offset = offset.toNat with
  | some index => return index
  | none => throw .illegalArgument

def readTry (catchHandlers : List CatchHandler) : Section Try := do
  let startAddress ← readInt
  let instructionCount ← readUnsignedShort
  let handlerOffset ← readUnsignedShort
  let catchHandlerIndex ← findCatchHandlerIndex catchHandlers handlerOffset
  return { startAddress, instructionCount, catchHandlerIndex }

def readTries (triesSize : BitVec 32) (catchHandlers : List CatchHandler) : Section (List Try) :=
  readItems (readTry catchHandlers) triesSize.toNat

variable (dex : Dex)

/-- Reads from another section, and goes on at the position of this one. -/
def openAt (position : Nat) (read : Section α) : Section α := fun next =>
  if dex.opens position then do return ((← read position).1, next) else .failed .illegalArgument

/-- The tries are read after their handlers, although they come before them. -/
def readTriesAndCatchHandlers (triesSize : BitVec 32) (instructions : Nat) :
    Section (List Try × List CatchHandler) :=
  if triesSize = 0 then return ([], []) else do
  if instructions % 2 = 1 then discard readShort
  let triesSection ← getPosition
  skip dex.capacity (8 * triesSize.toNat)
  let catchHandlers ← readCatchHandlers
  let tries ← openAt dex triesSection (readTries triesSize catchHandlers)
  return (tries, catchHandlers)

def readCode : Section Code := do
  let registersSize ← readUnsignedShort
  let insSize ← readUnsignedShort
  let outsSize ← readUnsignedShort
  let triesSize ← readUnsignedShort
  let debugInfoOffset ← readInt
  let instructionsSize ← readInt
  let instructions ← readShortArray instructionsSize
  let (tries, catchHandlers) ← readTriesAndCatchHandlers dex triesSize instructions.length
  return { registersSize, insSize, outsSize, debugInfoOffset, instructions, tries, catchHandlers }

end Section

namespace Dex

variable (dex : Dex)

/-- Reads from a new section. -/
def «open» (position : BitVec 32) (read : Section α) : Reader Throwable α :=
  if !position.msb && dex.opens position.toNat then do return (← read position.toNat).1
  else .failed .illegalArgument

/-- The absolute `getInt` of the buffer. -/
def getInt (position : BitVec 32) : Reader Throwable (BitVec 32) :=
  if position.msb || dex.limit < position.toNat + 4 then .failed .indexOutOfBounds
  else do return (← Section.readInt position.toNat).1

/-- Goes on if an index lies within the table of a section. -/
def checkBounds (index : BitVec 32) (type : SectionType) (rest : Reader Throwable α) : Reader Throwable α :=
  if index.msb || (dex.tableOfContents.entry type).size.sle index then .failed .indexOutOfBounds else rest

/-- Where an item of a table lies. -/
def itemOff (type : SectionType) (itemSize index : BitVec 32) : BitVec 32 :=
  (dex.tableOfContents.entry type).off + itemSize * index

def strings (index : BitVec 32) : Reader Throwable JavaString :=
  dex.checkBounds index .stringIds (dex.open (dex.itemOff .stringIds 4 index) (Section.readString dex.capacity))

def descriptorIndexFromTypeIndex (typeIndex : BitVec 32) : Reader Throwable (BitVec 32) :=
  dex.checkBounds typeIndex .typeIds (dex.getInt (dex.itemOff .typeIds 4 typeIndex))

def typeNames (index : BitVec 32) : Reader Throwable JavaString := do
  dex.strings (← dex.descriptorIndexFromTypeIndex index)

def protoIds (index : BitVec 32) : Reader Throwable ProtoId :=
  dex.checkBounds index .protoIds (dex.open (dex.itemOff .protoIds 12 index) Section.readProtoId)

def methodIds (index : BitVec 32) : Reader Throwable MethodId :=
  dex.checkBounds index .methodIds (dex.open (dex.itemOff .methodIds 8 index) Section.readMethodId)

def readTypeList (offset : BitVec 32) : Reader Throwable (List (BitVec 16)) :=
  if offset = 0 then return [] else dex.open offset (Section.readTypeList dex.capacity)

/-- The names of a type list, whose types are signed shorts. -/
def typeListNames : List (BitVec 16) → Reader Throwable JavaString
  | [] => return []
  | type :: types => do
    let name ← dex.typeNames (type.signExtend 32)
    let names ← typeListNames types
    return name ++ names

def readClassData (classDef : ClassDef) : Reader Throwable ClassData :=
  if classDef.classDataOffset = 0 then .failed .illegalArgument
  else dex.open classDef.classDataOffset Section.readClassData

def readCode (method : Method) : Reader Throwable Code :=
  if method.codeOffset = 0 then .failed .illegalArgument
  else dex.open method.codeOffset (Section.readCode dex)

end Dex

end inspector.dex
