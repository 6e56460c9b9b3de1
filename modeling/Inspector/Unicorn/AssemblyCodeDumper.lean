import Mathlib.Algebra.Order.Ring.Int
import Inspector.Base.Overwrite
import Inspector.Base.Throwing

open throwing

namespace inspector.unicorn

/-- The bytes that the hook reads. -/
abbrev CodeMemory := BitVec 64 → UInt8

/-- Where an exception of the dumper comes from. -/
inductive DumperException where
  | IllegalArgumentException
  | NegativeArraySizeException
  | arraycopy
  | disassemble
  deriving DecidableEq, Repr

/-- A call of the hook, before an instruction is executed, with what the replacements
of functions answer in it and how the disassembler ends. -/
structure Callback (Alt : Type) where
  address : BitVec 64
  size : Nat
  size_lt : size < 2 ^ 31
  replaceFunction : Alt → Bool
  disassembled : Bool

structure AssemblyCodeDumper (Alt : Type) where
  alloc : Alt
  traceInstruction : Bool
  traceBegin : BitVec 64
  traceEnd : BitVec 64
  alts : List Alt
  dumpBegin : BitVec 64
  dumpEnd : BitVec 64
  dumpBuffer : Option (List UInt8)

def mem_read (memory : CodeMemory) (address : BitVec 64) (size : Nat) : List UInt8 :=
  (List.range size).map fun i => memory (address + BitVec.ofNat 64 i)

/-- `System.arraycopy` of a whole array. -/
def arraycopy (src dest : List UInt8) (destPos : BitVec 32) : Option (List UInt8) :=
  if 0 ≤ destPos.toInt ∧ destPos.toInt + src.length ≤ dest.length then some (dest.overwrite destPos.toNat src) else none

namespace AssemblyCodeDumper

variable {Alt : Type}

abbrev M (Alt : Type) := Block DumperException (AssemblyCodeDumper Alt)

def new (alloc : Alt) : AssemblyCodeDumper Alt where
  alloc
  traceInstruction := false
  traceBegin := 0
  traceEnd := 0
  alts := []
  dumpBegin := 0
  dumpEnd := 0
  dumpBuffer := none

def initializeHook (s : AssemblyCodeDumper Alt) (traceInstruction : Bool) (traceBegin traceEnd : BitVec 64)
    (alts : List Alt) : AssemblyCodeDumper Alt :=
  { s with traceInstruction, traceBegin, traceEnd, alts := s.alloc :: alts }

def canTrace (s : AssemblyCodeDumper Alt) (address : BitVec 64) : Bool :=
  s.traceInstruction && (s.traceEnd.slt s.traceBegin || (s.traceBegin.sle address && address.sle s.traceEnd))

/-- The fields keep the new bounds when the array cannot be made. -/
def setDump («begin» «end» : BitVec 64) : M Alt Unit := do
  if «end».sle «begin» then throw .IllegalArgumentException
  let size := «end» - «begin»
  if (0x1000000#64).slt size then throw .IllegalArgumentException
  let s ← get
  if «begin» = s.dumpBegin ∧ «end» = s.dumpEnd ∧ s.dumpBuffer.isSome then return
  set { s with dumpBegin := «begin», dumpEnd := «end» }
  if (size.setWidth 32).slt 0 then throw .NegativeArraySizeException
  set { s with
    dumpBegin := «begin»
    dumpEnd := «end»
    dumpBuffer := some (List.replicate (size.setWidth 32).toNat 0) }

/-- The `finally` of the hook. -/
def record (memory : CodeMemory) (c : Callback Alt) : M Alt Unit := do
  let s ← get
  match s.dumpBuffer with
  | some dumpBuffer =>
    if s.dumpBegin.sle c.address && (c.address + BitVec.ofNat 64 c.size).slt s.dumpEnd then
      let code := mem_read memory c.address c.size
      let offset := (c.address - s.dumpBegin).setWidth 32
      match arraycopy code dumpBuffer offset with
      | some copied => set { s with dumpBuffer := some copied }
      | none => throw .arraycopy
  | none => return

/-- What the disassembler throws is thrown on after the `finally`. -/
def hook (memory : CodeMemory) (c : Callback Alt) : M Alt Unit := do
  let s ← get
  if s.alts.any c.replaceFunction then return
  record memory c
  if s.canTrace c.address && !c.disassembled then throw .disassemble

/-- Anything that happens to a dumper. -/
inductive Step (Alt : Type) where
  | setDump («begin» «end» : BitVec 64)
  | initializeHook (traceInstruction : Bool) (traceBegin traceEnd : BitVec 64) (alts : List Alt)
  | hook (memory : CodeMemory) (c : Callback Alt)

def step (s : AssemblyCodeDumper Alt) : Step Alt → AssemblyCodeDumper Alt
  | .setDump «begin» «end» => (setDump «begin» «end»).after s
  | .initializeHook traceInstruction traceBegin traceEnd alts =>
    s.initializeHook traceInstruction traceBegin traceEnd alts
  | .hook memory c => (hook memory c).after s

def after (alloc : Alt) (steps : List (Step Alt)) : AssemblyCodeDumper Alt := steps.foldl step (new alloc)

/-- The hooks of an emulated run. -/
def emulate (memory : CodeMemory) (s : AssemblyCodeDumper Alt) (callbacks : List (Callback Alt)) :
    AssemblyCodeDumper Alt :=
  callbacks.foldl (fun s c => (hook memory c).after s) s

end AssemblyCodeDumper

end inspector.unicorn
