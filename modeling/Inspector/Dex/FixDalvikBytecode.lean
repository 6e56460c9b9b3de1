import Inspector.Base.Machine
import Inspector.Dex.Create

namespace inspector.dex

/-- The instructions that were collected, by the key of their method. The array is
null where the method gives none. -/
abbrev InstructionMap := List (JavaString × Option (List (BitVec 16)))

/-- One `put` of a section. -/
inductive Put where
  | short (s : BitVec 16)
  | unsignedShort (i : BitVec 32)
  | int (i : BitVec 32)
  deriving DecidableEq, Repr

def shortBytes (s : BitVec 16) : List UInt8 := [⟨s.extractLsb' 0 8⟩, ⟨s.extractLsb' 8 8⟩]

def intBytes (i : BitVec 32) : List UInt8 :=
  shortBytes (i.extractLsb' 0 16) ++ shortBytes (i.extractLsb' 16 16)

def Put.bytes : Put → Except Throwable (List UInt8)
  | .short s => .ok (shortBytes s)
  | .unsignedShort i =>
    if i = (i.setWidth 16).setWidth 32 then .ok (shortBytes (i.setWidth 16)) else .error .illegalArgument
  | .int i => .ok (intBytes i)

/-- An exception with the bytes that the buffer has then. -/
abbrev Broken := Throwable × List UInt8

/-- Puts at the position and moves past it. -/
def put (s : List UInt8 × Nat) (p : Put) : Except Broken (List UInt8 × Nat) :=
  let (data, position) := s
  match p.bytes with
  | .error e => .error (e, data)
  | .ok bytes =>
    if data.length < position + bytes.length then .error (.bufferOverflow, data)
    else .ok (data.overwrite position bytes, position + bytes.length)

def writeInstructions (ins : List (BitVec 16)) (old : Code) (triesSize : Nat) : List Put :=
  [.unsignedShort old.registersSize, .unsignedShort old.insSize, .unsignedShort old.outsSize,
    .unsignedShort (BitVec.ofNat 32 triesSize), .int old.debugInfoOffset, .int (BitVec.ofNat 32 ins.length)] ++
  ins.map .short

/-- Only instructions that there is room for are written. -/
def writeMethodInstructions (dex : Dex) (data : List UInt8) (method : Method) (ins : List (BitVec 16)) (old : Code) :
    Except Broken (Bool × List UInt8) :=
  let offset := method.codeOffset
  if offset = 0 then .error (.illegalArgument, data)
  else if ins.length ≤ old.instructions.length then
    if !offset.msb && dex.opens offset.toNat then do
      let triesSize := if ins.length = old.instructions.length then old.tries.length else 0
      let (data, _) ← machine.run put (data, offset.toNat) (writeInstructions ins old triesSize)
      return (true, data)
    else .error (.illegalArgument, data)
  else .ok (false, data)

/-- What the buffer is after a block whose exceptions are caught. -/
def caught : Except Broken (List UInt8) → List UInt8
  | .ok data => data
  | .error (_, data) => data

section Loop

variable (instructionMap : InstructionMap) (dex : Dex)

def javaString (s : String) : JavaString := s.toList.map fun c => BitVec.ofNat 16 c.toNat

/-- The key of a method of a class. -/
def key (classType : JavaString) (method : Method) : Reader Throwable JavaString := do
  let methodId ← dex.methodIds method.methodIndex
  let protoId ← dex.protoIds methodId.protoIndex
  let retType ← dex.typeNames protoId.returnTypeIndex
  let typeList ← dex.readTypeList protoId.parametersOffset
  let name ← dex.strings methodId.nameIndex
  let types ← dex.typeListNames typeList
  return classType ++ javaString "->" ++ name ++ javaString "(" ++ types ++ javaString ")" ++ retType

/-- The code of a method, null when it has none. -/
def myCode (method : Method) : Reader Throwable (Option Code) :=
  if method.codeOffset.slt 1 then return none else do return some (← dex.readCode method)

/-- What is done to one method once its key is known. -/
def fixMethod (data : List UInt8) (key : JavaString) (method : Method) : List UInt8 :=
  match (instructionMap.lookup key).bind id, (myCode dex method).run data with
  | some ins, .ok (some myCode) =>
    if ins = myCode.instructions then data
    else caught ((writeMethodInstructions dex data method ins myCode).map Prod.snd)
  | _, _ => data

/-- One pass of the loop over the methods of a class. -/
def methodStep (classType : JavaString) (data : List UInt8) (method : Method) : Except Broken (List UInt8) :=
  match (key dex classType method).run data with
  | .ok key => .ok (fixMethod instructionMap dex data key method)
  | .error e => .error (e, data)

/-- The class definition that the iterator comes to after so many others. -/
def classDefAt (i : Nat) : Reader Throwable ClassDef := do
  return (← Section.readClassDef ((dex.tableOfContents.entry .classDefs).off.toNat + 32 * i)).1

/-- One pass of the loop over the classes. -/
def classStep (data : List UInt8) (i : Nat) : Except Broken (List UInt8) :=
  match (classDefAt dex i).run data with
  | .error e => .error (e, data)
  | .ok def_ =>
    if def_.classDataOffset.slt 1 then .ok data
    else match (dex.typeNames def_.typeIndex).run data with
      | .error e => .error (e, data)
      | .ok classType =>
        match (dex.readClassData def_).run data with
        | .error _ => .ok data
        | .ok classData =>
          .ok (caught (machine.run (methodStep instructionMap dex classType) data classData.allMethods))

/-- How many class definitions there are. -/
def Dex.classDefs : Nat :=
  let size := (dex.tableOfContents.entry .classDefs).size
  if size.sle 0 then 0 else size.toNat

/-- The loop over the classes. Its iterator opens a section when there are any. -/
def classLoop (data : List UInt8) : Except Broken (List UInt8) :=
  let off := (dex.tableOfContents.entry .classDefs).off
  if dex.classDefs = 0 || (!off.msb && dex.opens off.toNat) then
    machine.run (classStep instructionMap dex) data (List.range dex.classDefs)
  else .error (.illegalArgument, data)

/-- `writeTo` and `toByteArray`: a copy of the dex, unless something is thrown while it is
made. -/
def writeTo (thrown : Option Throwable) (data : List UInt8) : BufferM (List UInt8) :=
  match thrown with
  | none => return data
  | some e => throw e

variable (thrown : Option Throwable)

/-- The block of `fixDalvikBytecode` whose exceptions are caught. The dex shares its
bytes with the buffer. -/
def fixDex : BufferM (List UInt8) := do
  let (dex, section_) ← Dex.create
  match classLoop instructionMap dex section_.data with
  | .ok data =>
    modify fun b => b.overwrite section_.start data
    writeTo thrown data
  | .error (e, data) =>
    modify fun b => b.overwrite section_.start data
    throw e

/-- What is handed back: the buffer that came in, or a copy of the dex. -/
inductive Returned where
  | input (dexData : DirectBuffer)
  | wrapped (data : List UInt8)

def fixDalvikBytecode (dexData : DirectBuffer) : Except Throwable Returned :=
  if instructionMap.isEmpty then .ok (.input dexData)
  else
    match (fixDex instructionMap thrown).run.run dexData.setMark with
    | (.ok data, _) => .ok (.wrapped data)
    | (.error _, dexData) => dexData.reset.map .input

end Loop

end inspector.dex
