import Inspector.Base.Machine
import Inspector.DexHunter.Code

namespace inspector.dexhunter

structure DexClassDef where
  classIdx : BitVec 32
  accessFlags : BitVec 32
  superclassIdx : BitVec 32
  interfacesOff : BitVec 32
  sourceFileIdx : BitVec 32
  annotationsOff : BitVec 32
  classDataOff : BitVec 32
  staticValuesOff : BitVec 32
  deriving DecidableEq, Repr

/-- The `sizeof(DexClassDef)` bytes of a class definition. -/
def DexClassDef.bytes (d : DexClassDef) : List UInt8 :=
  [d.classIdx, d.accessFlags, d.superclassIdx, d.interfacesOff, d.sourceFileIdx, d.annotationsOff,
    d.classDataOff, d.staticValuesOff].flatMap Memory.bytes4

/-- A mapped odex file: where it lies, where the dex section starts in it, and its
class definitions with the descriptors of their types. -/
structure DexImage where
  addr : BitVec 32
  length : Nat
  base : Nat
  classDefsOff : Nat
  classDefs : List DexClassDef
  descriptor : BitVec 32 → List UInt8
  fits : base + classDefsOff + 32 * classDefs.length ≤ length
  bounded : length < 2 ^ 31

namespace DexImage

variable (image : DexImage)

def baseAddr : BitVec 32 := image.addr + BitVec.ofNat 32 image.base

/-- The offset right after the class definitions. -/
def start : BitVec 32 := BitVec.ofNat 32 (image.classDefsOff + 32 * image.classDefs.length)

/-- The end of the mapping, as an offset into the dex section. -/
def «end» : BitVec 32 := BitVec.ofNat 32 (image.length - image.base)

/-- Whether an offset lies in the saved data section or right at its end. -/
def inside (off : BitVec 32) : Bool := image.start ≤ off && off ≤ image.end

/-- Classes of the framework and classes without data are passed over. -/
def pass (d : DexClassDef) : Bool :=
  (image.descriptor d.classIdx).take 8 = "Landroid".toList.map Char.toUInt8 || d.classDataOff = 0

end DexImage

/-- The two parts of the mapping around the class definitions, as `saveCookie`
found them. -/
structure CookieMap where
  header : List UInt8
  data : List UInt8

def saveHeaderAndData (image : DexImage) (m : Memory) : CookieMap where
  header := m.slice image.addr (image.base + image.classDefsOff)
  data := m.slice (image.baseAddr + image.start)
    (image.length - (image.base + image.classDefsOff + 32 * image.classDefs.length))

/-- A method of a loaded class. The null pointer stands for a method without code. -/
structure Method where
  address : BitVec 32
  accessFlags : BitVec 32
  insns : BitVec 32
  deriving DecidableEq, Repr

structure ClassObject where
  directMethods : Nat → Method
  virtualMethods : Nat → Method

/-- The instructions that were collected for a method. -/
structure BytecodeMap where
  method : BitVec 32
  insns : List UInt8
  deriving DecidableEq, Repr

structure BytecodeFix where
  codeOff : BitVec 32
  bytecode : BytecodeMap
  deriving DecidableEq, Repr

structure Process where
  mem : Memory
  allBytecodeMap : List BytecodeMap

/-- The allocations that can fail. -/
inductive Allocation where
  | classData (i : Nat)
  | encoded (i : Nat)
  | fix (method : BitVec 32)
  deriving DecidableEq, Repr

/-- What the virtual machine does: `load` is `dvmDefineClass` and then
`dvmInitClass`, which run code of the class and may change the memory and collect
bytecode. -/
structure Vm where
  load : Nat → Process → Process × Option ClassObject
  malloc : Allocation → Bool

/-- What is observed of a dump: each method whose bytecode was compared, with the
offset its record held, and each item that went to the extra file. -/
inductive Event where
  | checked (method : Method) (recorded codeitem_off : BitVec 32) (found : Option BytecodeMap)
      (registered : Option BytecodeFix)
  | placed (offset : BitVec 32) (position : Nat) (item : List UInt8)
  deriving DecidableEq, Repr

/-- The locals of `DumpClass`. The class-def file is kept as the list of the
definitions written to it. -/
structure Dump where
  process : Process
  total_pointer : BitVec 32
  classdef : List DexClassDef
  extra : List UInt8
  fix : List BytecodeFix
  log : List Event

inductive Crash where
  | nullPointer
  | outOfBounds
  deriving DecidableEq, Repr

/-- The first map of a method whose instructions differ from the current ones. -/
def Process.findBytecode (p : Process) (method : Method) : Option BytecodeMap :=
  p.allBytecodeMap.find? fun map =>
    method.address = map.method && p.mem.slice method.insns map.insns.length ≠ map.insns

def fixMethodBytecode (p : Process) (method : Method) : Option (BytecodeMap × Process) :=
  (p.findBytecode method).map fun map => (map, { p with mem := p.mem.copy method.insns map.insns })

def createFix (codeOff : BitVec 32) (bytecode : BytecodeMap) (malloc : Bool) : Option BytecodeFix :=
  if malloc then some { codeOff, bytecode } else none

theorem padding_decreases {pointer : BitVec 32} (hpointer : ¬ pointer &&& 3 = 0) :
    (4 - (pointer + 1).toNat % 4) % 4 < (4 - pointer.toNat % 4) % 4 := by
  rw [← BitVec.toNat_inj, and_three_toNat] at hpointer
  change ¬ pointer.toNat % 4 = 0 at hpointer
  have hnext : (pointer + 1).toNat % 4 = (pointer.toNat + 1) % 4 := by
    rw [BitVec.toNat_add]
    change (pointer.toNat + 1) % 2 ^ 32 % 4 = (pointer.toNat + 1) % 4
    omega
  omega

/-- How often the loop `while (total_pointer & 3) total_pointer++` runs. -/
def padding (total_pointer : BitVec 32) : Nat :=
  if total_pointer &&& 3 = 0 then 0 else padding (total_pointer + 1) + 1
termination_by (4 - total_pointer.toNat % 4) % 4
decreasing_by exact padding_decreases ‹_›

namespace Dump

/-- An item goes to the extra file, followed by zeros up to the next multiple of
four of the pointer. -/
def place (d : Dump) (item : List UInt8) (len : BitVec 32) : Dump :=
  let inc := padding (d.total_pointer + len)
  { d with
    extra := d.extra ++ item ++ List.replicate inc 0
    total_pointer := d.total_pointer + len + BitVec.ofNat 32 inc
    log := d.log ++ [.placed d.total_pointer d.extra.length item] }

def writeClassDef (d : Dump) (temp : DexClassDef) : Dump := { d with classdef := d.classdef ++ [temp] }

end Dump

section Loop

variable (image : DexImage) (vm : Vm)

/-- The bytecode of a method is fixed when its offset is the one it is compared
with. -/
def checkBytecode (d : Dump) (method : Method) (recorded compared codeitem_off : BitVec 32) : Dump :=
  let found := d.process.findBytecode method
  match if codeitem_off = compared then fixMethodBytecode d.process method else none with
  | some (map, process) =>
    let fix := createFix codeitem_off map (vm.malloc (.fix method.address))
    { d with
      process
      fix := d.fix ++ fix.toList
      log := d.log ++ [.checked method recorded codeitem_off found fix] }
  | none => { d with log := d.log ++ [.checked method recorded codeitem_off found none] }

def ACC_NATIVE : BitVec 32 := 0x100

/-- The flags of a method under `mask`. -/
def Method.flags (method : Method) : BitVec 32 := method.accessFlags &&& 0x3ffff

def Method.hasCode (method : Method) : Bool := method.insns ≠ 0 && method.flags &&& ACC_NATIVE = 0

/-- The body of the two method loops: what becomes of the dump and of the record of
the method, and whether the record has changed. The loops differ in the offset
that decides whether the bytecode is fixed. -/
def processMethod (d : Dump) (method : Method) (record : DexMethod) (compared : BitVec 32) :
    Dump × DexMethod × Bool :=
  let accessFlags := method.flags
  if !method.hasCode then
    if record.codeOff ≠ 0 then (d, { record with accessFlags, codeOff := 0 }, true)
    else (d, record, false)
  else
    let codeitem_off := method.insns - 16 - image.baseAddr
    let d := checkBytecode vm d method record.codeOff compared codeitem_off
    let need_extra := accessFlags ≠ record.accessFlags
    let record := { record with accessFlags }
    let inside := image.inside codeitem_off
    if inside || codeitem_off = 0 then
      (d, { record with codeOff := codeitem_off }, need_extra || codeitem_off ≠ record.codeOff)
    else
      let code := method.insns - 16
      let len := codeItemLen d.process.mem code
      (d.place (d.process.mem.slice code len.toNat) len, { record with codeOff := d.total_pointer }, true)

/-- The locals of one pass of the class loop. -/
structure ClassLocals where
  dump : Dump
  pData : DexClassData
  need_extra : Bool

def directMethod (clazz : ClassObject) (l : ClassLocals) (i : Nat) : Except Crash ClassLocals :=
  let record := l.pData.directMethods.getD i default
  let (dump, updated, changed) := processMethod image vm l.dump (clazz.directMethods i) record record.codeOff
  .ok {
    dump
    pData := { l.pData with directMethods := l.pData.directMethods.set i updated }
    need_extra := l.need_extra || changed }

/-- The virtual loop compares with the record at the same index of the direct
methods. Past their end this is a record of the virtual methods; with no direct
method there is no array to read from. -/
def virtualMethod (clazz : ClassObject) (l : ClassLocals) (i : Nat) : Except Crash ClassLocals :=
  let method := clazz.virtualMethods i
  if method.hasCode && l.pData.directMethods.isEmpty then .error .nullPointer
  else
    let record := l.pData.virtualMethods.getD i default
    let compared := ((l.pData.directMethods ++ l.pData.virtualMethods).getD i default).codeOff
    let (dump, updated, changed) := processMethod image vm l.dump method record compared
    .ok {
      dump
      pData := { l.pData with virtualMethods := l.pData.virtualMethods.set i updated }
      need_extra := l.need_extra || changed }

def processMethods (clazz : ClassObject) (l : ClassLocals) : Except Crash ClassLocals := do
  let l ← machine.run (directMethod image vm clazz) l (List.range l.pData.directMethods.length)
  machine.run (virtualMethod image vm clazz) l (List.range l.pData.virtualMethods.length)

/-- The tail of the class loop, from the label `classdef` on, for a class that has
been read. -/
def finishClass (l : ClassLocals) (pClassDef : DexClassDef) (i : Nat) : Dump :=
  if l.need_extra then
    match EncodeClassData l.pData (vm.malloc (.encoded i)) with
    | none => l.dump
    | some (out, class_data_len) =>
      (l.dump.place out (BitVec.ofNat 32 class_data_len)).writeClassDef
        { pClassDef with classDataOff := l.dump.total_pointer }
  else l.dump.writeClassDef pClassDef

/-- One pass of the class loop. -/
def dumpClass (d : Dump) (entry : DexClassDef × Nat) : Except Crash Dump :=
  let (pClassDef, i) := entry
  if image.pass pClassDef then
    .ok (d.writeClassDef { pClassDef with classDataOff := 0, annotationsOff := 0 })
  else
    let (process, clazz) := vm.load i d.process
    let d := { d with process }
    match clazz with
    | none => .ok d
    | some clazz =>
      match ReadClassData process.mem (image.baseAddr + pClassDef.classDataOff) (vm.malloc (.classData i)) with
      | none => .ok d
      | some (pData, _) => do
        let l ← processMethods image vm clazz
          { dump := d, pData, need_extra := !image.inside pClassDef.classDataOff }
        return finishClass vm l pClassDef i

/-- The locals before the class loop. The padding is added to the pointer only. -/
def initial (process : Process) : Dump where
  process
  total_pointer := image.end + BitVec.ofNat 32 (padding image.end)
  classdef := []
  extra := []
  fix := []
  log := []

def classLoop (process : Process) : Except Crash Dump :=
  machine.run (dumpClass image vm) (initial image process) image.classDefs.zipIdx

end Loop

def ODEX_HEADER_SIZE : BitVec 32 := 40

/-- One pass of the loop that copies the fixed bytecode into the saved data. -/
def fixData (offset : Nat) (data : List UInt8) (next : BytecodeFix) : Except Crash (List UInt8) :=
  let off := next.codeOff - BitVec.ofNat 32 offset
  let position := off + 16 + ODEX_HEADER_SIZE
  if position < BitVec.ofNat 32 data.length then
    if position.toNat + next.bytecode.insns.length ≤ data.length then
      .ok (data.take position.toNat ++ next.bytecode.insns ++
        data.drop (position.toNat + next.bytecode.insns.length))
    else .error .outOfBounds
  else .ok data

/-- The produced buffer, of a size that is an `int`. -/
def assemble (cookieMap : CookieMap) (d : Dump) : Except Crash (List UInt8) :=
  let classdef := d.classdef.flatMap DexClassDef.bytes
  let offset := cookieMap.header.length + classdef.length
  if offset + cookieMap.data.length + d.extra.length < 2 ^ 31 then do
    let data ← machine.run (fixData offset) cookieMap.data d.fix
    return cookieMap.header ++ classdef ++ data ++ d.extra
  else .error .outOfBounds

def DumpClass (image : DexImage) (vm : Vm) (cookieMap : CookieMap) (process : Process) :
    Except Crash (Dump × List UInt8) := do
  let d ← classLoop image vm process
  let dex ← assemble cookieMap d
  return (d, dex)

end inspector.dexhunter
