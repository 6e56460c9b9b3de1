import Inspector.Base.Memory
import Inspector.Base.Utf16
import Inspector.Unicorn.ARM

open stream

namespace inspector.unicorn

/-- The memory and the registers of the emulated processor. -/
structure Unicorn where
  mem : Memory
  reg : Reg → BitVec 32

def PAGE_ALIGN : Nat := 0x1000

def STACK_BASE : Nat := 0x7ff000

def STACK_SIZE : Nat := 64

def HEAP_BASE : Nat := 0x10000000

def sp : Nat := STACK_BASE + STACK_SIZE * PAGE_ALIGN

def lr : Nat := 0x100000

/-- The regions that are mapped when the emulator is made. Those that are mapped
later begin at 0x40000000. -/
def regions : List (Nat × Nat) :=
  [(STACK_BASE, (STACK_SIZE + 1) * PAGE_ALIGN), (lr, PAGE_ALIGN), (HEAP_BASE, PAGE_ALIGN * 2)]

namespace Unicorn

/-- Whether a region has all these bytes. -/
def mapped (address : BitVec 64) (size : Nat) : Bool :=
  regions.any fun region => region.1 ≤ address.toNat && address.toNat + size ≤ region.1 + region.2

/-- A write of some bytes. The exception for memory that is not mapped is `none`. -/
def mem_write (u : Unicorn) (address : BitVec 64) (bytes : List UInt8) : Option Unicorn :=
  if mapped address bytes.length then some { u with mem := u.mem.copy (address.setWidth 32) bytes } else none

/-- A read of one byte. -/
def mem_read (u : Unicorn) (address : BitVec 64) : Option UInt8 :=
  if mapped address 1 then some (u.mem (address.setWidth 32)) else none

def reg_write (u : Unicorn) (r : Reg) (value : BitVec 32) : Unicorn :=
  { u with reg := fun q => if q = r then value else u.reg q }

end Unicorn

/-- An argument of a call: an integer of any size, or a string of UTF-16 characters. -/
inductive Arg where
  | number (value : Int)
  | string (value : List (BitVec 16))
  deriving DecidableEq, Repr

/-- The emulator, with the heap of its allocator. -/
structure Emulator where
  u : Unicorn
  heap : BitVec 64

/-- The local variables of `eFunc`. -/
structure Call where
  u : Unicorn
  heap : BitVec 64
  rets : List (BitVec 64)

def writeCString (u : Unicorn) (alloc : BitVec 64) (str : List (BitVec 16)) : Option (Unicorn × BitVec 32) :=
  let data := getBytes str
  (u.mem_write alloc (data ++ [0])).map fun u => (u, alignSize (BitVec.ofNat 32 (data.length + 1)))

namespace Call

/-- The word of an argument. A string is written to the heap for it. -/
def word (c : Call) : Arg → Option (BitVec 32 × Call)
  | .string str =>
    (writeCString c.u c.heap str).map fun (u, size) =>
      (c.heap.setWidth 32, { u, heap := c.heap + size.signExtend 64, rets := c.rets ++ [c.heap] })
  | .number n => some (BitVec.ofInt 32 n, c)

def regArg (c : Call) (r : Reg) (arg : Arg) : Option Call :=
  (c.word arg).map fun (word, c) => { c with u := c.u.reg_write r word }

def stackArg (c : Call) (sp : BitVec 64) (arg : Arg) : Option Call :=
  (c.word arg).bind fun (word, c) => (c.u.mem_write sp (Memory.bytes4 word)).map fun u => { c with u }

/-- The first loop of `eFunc`, with the arguments that it leaves. -/
def regArgs (c : Call) : List Reg → List Arg → Option (Call × List Arg)
  | r :: regs, arg :: args => (c.regArg r arg).bind fun c => c.regArgs regs args
  | _, args => some (c, args)

/-- The second loop of `eFunc`. -/
def stackArgs (c : Call) (sp : BitVec 64) : List Arg → Option Call
  | [] => some c
  | arg :: args => (c.stackArg sp arg).bind fun c => c.stackArgs (sp + 4) args

end Call

def enableVFP (u : Unicorn) : Unicorn :=
  (u.reg_write .C1_C0_2 (u.reg .C1_C0_2 ||| (0xf <<< 20))).reg_write .FPEXC 0x40000000

/-- The state in which the emulation is started. -/
def initializeRegs (u : Unicorn) (heap : BitVec 64) : Emulator where
  u := enableVFP (((u.reg_write .C13_C0_3 (heap.setWidth 32)).reg_write .SP (BitVec.ofNat 32 sp)).reg_write .LR
    (BitVec.ofNat 32 lr))
  heap := heap + ALIGN_SIZE_BASE.signExtend 64

/-- All that `eFunc` does before the emulation: the state for it, and the addresses of the strings. -/
def marshal (u : Unicorn) (args : List Arg) : Option (Emulator × List (BitVec 64)) :=
  (Call.regArgs { u, heap := BitVec.ofNat 64 HEAP_BASE, rets := [] } getRegArgs args).bind fun (c, args) =>
    (c.stackArgs (BitVec.ofNat 64 sp) args).map fun c => (initializeRegs c.u c.heap, c.rets)

/-- The address at which the emulation starts. -/
def codeAddress (thumb : Bool) (start : BitVec 64) : BitVec 64 :=
  if thumb then start ||| 1 else start.sshiftRight 1 <<< 1

/-! The emulation goes from an address up to another one. An exception is `none`. -/
section Emulate

variable (emulate : BitVec 64 → BitVec 64 → Emulator → Option Emulator)

def eFunc (thumb : Bool) (e : Emulator) (start : BitVec 64) (args : List Arg) : Option (List (BitVec 64)) :=
  (marshal e.u args).bind fun (started, rets) =>
    (emulate (codeAddress thumb start) (BitVec.ofNat 64 lr) started).map fun finished =>
      (finished.u.reg .R0).setWidth 64 :: rets

/-- The state in which `eBlock` starts the emulation. -/
def eBlockStarted (e : Emulator) : Emulator := initializeRegs e.u (BitVec.ofNat 64 HEAP_BASE)

def eBlock (thumb : Bool) (e : Emulator) (start last : BitVec 64) : Option Emulator :=
  emulate (codeAddress thumb start) (if last.slt 1 then BitVec.ofNat 64 lr else last)
    (eBlockStarted e)

end Emulate

/-- The bytes before the first zero, which are read one by one. -/
def readCString (u : Unicorn) : Nat → BitVec 64 → Option (List UInt8)
  | 0, _ => none
  | count + 1, addr =>
    (u.mem_read addr).bind fun byte =>
      if byte = 0 then some [] else (readCString u count (addr + 1)).map (byte :: ·)

/-- No region is longer than the stack, so that the loop has ended by then. -/
def cstring (lenient : Bool) (u : Unicorn) (addr : BitVec 64) : Option (List (BitVec 16)) :=
  (readCString u ((STACK_SIZE + 1) * PAGE_ALIGN + 1) addr).map (newString lenient)

end inspector.unicorn
