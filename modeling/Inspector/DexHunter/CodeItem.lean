import Inspector.DexHunter.ClassDataCodec
import Inspector.DexHunter.Code

open leb128

namespace inspector.dexhunter

section Encoded

/-- An unsigned number in at most five bytes. -/
structure ULeb128 where
  bytes : List UInt8
  encoding : Encoding bytes
  length_le : bytes.length ≤ 5
  value_lt : leb128.value bytes < 2 ^ 32

def ULeb128.value (number : ULeb128) : BitVec 32 := BitVec.ofNat 32 (leb128.value number.bytes)

/-- A signed number in at most five bytes. -/
structure SLeb128 where
  bytes : List UInt8
  encoding : Encoding bytes
  length_le : bytes.length ≤ 5
  le_value : -2 ^ 31 ≤ signedValue bytes
  value_lt : signedValue bytes < 2 ^ 31

def SLeb128.value (number : SLeb128) : Int := signedValue number.bytes

/-- An exception type with the address of its handler. -/
structure TypeAddr where
  typeIdx : ULeb128
  addr : ULeb128

def TypeAddr.bytes (pair : TypeAddr) : List UInt8 := pair.typeIdx.bytes ++ pair.addr.bytes

/-- The handlers of a catch list, whose size is not positive when there is one that catches all. -/
structure CatchHandler where
  size : SLeb128
  handlers : List TypeAddr
  catchAllAddr : Option ULeb128
  size_eq : size.value = if catchAllAddr.isSome then -(handlers.length : Int) else handlers.length
  handlers_ne : catchAllAddr = none → handlers ≠ []

def CatchHandler.bytes (handler : CatchHandler) : List UInt8 :=
  handler.size.bytes ++ (handler.handlers.flatMap TypeAddr.bytes ++ (handler.catchAllAddr.map ULeb128.bytes).getD [])

structure CatchHandlerList where
  size : ULeb128
  list : List CatchHandler
  size_eq : leb128.value size.bytes = list.length

def CatchHandlerList.bytes (handlers : CatchHandlerList) : List UInt8 :=
  handlers.size.bytes ++ handlers.list.flatMap CatchHandler.bytes

structure DexTry where
  startAddr : BitVec 32
  insnCount : BitVec 16
  handlerOff : BitVec 16
  deriving DecidableEq

def DexTry.bytes (dexTry : DexTry) : List UInt8 :=
  Memory.bytes4 dexTry.startAddr ++ (Memory.bytes2 dexTry.insnCount ++ Memory.bytes2 dexTry.handlerOff)

/-- What is behind the instructions of a method that catches exceptions. -/
structure TryBlocks where
  padding : BitVec 16
  tries : List DexTry
  handlers : CatchHandlerList
  tries_ne : tries ≠ []
  tries_lt : tries.length < 2 ^ 16

/-- The two bytes of padding are there for an odd number of instructions. -/
def TryBlocks.bytes (blocks : TryBlocks) (insnsSize : Nat) : List UInt8 :=
  (if insnsSize % 2 = 0 then [] else Memory.bytes2 blocks.padding) ++
    (blocks.tries.flatMap DexTry.bytes ++ blocks.handlers.bytes)

structure DexCode where
  registersSize : BitVec 16
  insSize : BitVec 16
  outsSize : BitVec 16
  debugInfoOff : BitVec 32
  insns : List (BitVec 16)
  blocks : Option TryBlocks

namespace DexCode

def tries (code : DexCode) : List DexTry := (code.blocks.map TryBlocks.tries).getD []

def header (code : DexCode) : List UInt8 :=
  Memory.bytes2 code.registersSize ++ (Memory.bytes2 code.insSize ++ (Memory.bytes2 code.outsSize ++
    (Memory.bytes2 (BitVec.ofNat 16 code.tries.length) ++ (Memory.bytes4 code.debugInfoOff ++
      Memory.bytes4 (BitVec.ofNat 32 code.insns.length)))))

def bytes (code : DexCode) : List UInt8 :=
  code.header ++ (code.insns.flatMap Memory.bytes2 ++
    (code.blocks.map fun blocks => blocks.bytes code.insns.length).getD [])

end DexCode

/-- A code item that the memory has room for. -/
structure CodeItem extends DexCode where
  length_lt : toDexCode.bytes.length < 2 ^ 32

end Encoded

section Parsed

/-- The exception types with their addresses, and the address that catches all. -/
structure ParsedHandler where
  handlers : List (BitVec 32 × BitVec 32)
  catchAllAddr : Option (BitVec 32)
  deriving DecidableEq

structure ParsedCode where
  registersSize : BitVec 16
  insSize : BitVec 16
  outsSize : BitVec 16
  triesSize : BitVec 16
  debugInfoOff : BitVec 32
  insnsSize : BitVec 32
  insns : List (BitVec 16)
  tries : List DexTry
  handlers : List ParsedHandler
  deriving DecidableEq

variable (m : Memory)

def readInsn (ptr : BitVec 32) : BitVec 16 × BitVec 32 := (m.u2 ptr, ptr + 2)

def readTry (ptr : BitVec 32) : DexTry × BitVec 32 :=
  ({ startAddr := m.u4 ptr, insnCount := m.u2 (ptr + 4), handlerOff := m.u2 (ptr + 6) }, ptr + 8)

def readTypeAddr (ptr : BitVec 32) : (BitVec 32 × BitVec 32) × BitVec 32 :=
  let (typeIdx, ptr) := readUnsignedLeb128 m ptr
  let (addr, ptr) := readUnsignedLeb128 m ptr
  ((typeIdx, addr), ptr)

/-- A catch list, read as `codeitem_end` skips it. -/
def readHandler (ptr : BitVec 32) : ParsedHandler × BitVec 32 :=
  let (num_of_handlers, ptr) := readSignedLeb128 m ptr
  let num := if num_of_handlers.sle 0 then -num_of_handlers else num_of_handlers
  let (handlers, ptr) := readItems (readTypeAddr m) (if num.sle 0 then 0 else num.toNat) ptr
  if num_of_handlers.sle 0 then
    let (addr, ptr) := readUnsignedLeb128 m ptr
    ({ handlers, catchAllAddr := some addr }, ptr)
  else ({ handlers, catchAllAddr := none }, ptr)

def readHandlers (ptr : BitVec 32) : List ParsedHandler × BitVec 32 :=
  let (size, ptr) := readUnsignedLeb128 m ptr
  readItems (readHandler m) size.toNat ptr

/-- What a virtual machine makes of a code item. -/
def parseCode (code : BitVec 32) : ParsedCode where
  registersSize := m.u2 code
  insSize := m.u2 (code + 2)
  outsSize := m.u2 (code + 4)
  triesSize := triesSize m code
  debugInfoOff := m.u4 (code + 8)
  insnsSize := insnsSize m code
  insns := (readItems (readInsn m) (insnsSize m code).toNat (code + 16)).1
  tries := (readItems (readTry m) (triesSize m code).toNat (dexGetTries m code)).1
  handlers := if triesSize m code ≠ 0 then (readHandlers m (dexGetCatchHandlerData m code)).1 else []

end Parsed

section Values

def TypeAddr.parsed (pair : TypeAddr) : BitVec 32 × BitVec 32 := (pair.typeIdx.value, pair.addr.value)

def CatchHandler.parsed (handler : CatchHandler) : ParsedHandler where
  handlers := handler.handlers.map TypeAddr.parsed
  catchAllAddr := handler.catchAllAddr.map ULeb128.value

def CatchHandlerList.parsed (handlers : CatchHandlerList) : List ParsedHandler := handlers.list.map CatchHandler.parsed

def DexCode.parsed (code : DexCode) : ParsedCode where
  registersSize := code.registersSize
  insSize := code.insSize
  outsSize := code.outsSize
  triesSize := BitVec.ofNat 16 code.tries.length
  debugInfoOff := code.debugInfoOff
  insnsSize := BitVec.ofNat 32 code.insns.length
  insns := code.insns
  tries := code.tries
  handlers := (code.blocks.map fun blocks => blocks.handlers.parsed).getD []

end Values

end inspector.dexhunter
