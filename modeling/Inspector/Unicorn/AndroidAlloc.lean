import Inspector.Unicorn.DefaultARMEmulator

namespace inspector.unicorn

/-- A call that the emulated code makes to the allocator. -/
inductive Request where
  | malloc (size : BitVec 32)
  | free (addr : BitVec 32)
  deriving DecidableEq, Repr

/-- What `virtual_malloc` returned, and the size that was asked of it. -/
structure Block where
  addr : BitVec 32
  size : BitVec 32
  deriving DecidableEq, Repr

/-- The allocator, with the blocks that it has handed out of the virtual heap. -/
structure AndroidAlloc where
  heap : BitVec 64
  blocks : List Block

namespace AndroidAlloc

def virtual_malloc (a : AndroidAlloc) (size : BitVec 32) : BitVec 32 × AndroidAlloc :=
  (a.heap.setWidth 32, { a with heap := a.heap + (alignSize size).signExtend 64 })

/-- A heap that is not positive leaves the call to the allocator of the process. -/
def malloc (a : AndroidAlloc) (size : BitVec 32) : AndroidAlloc :=
  if (0#64).slt a.heap then
    let (addr, a) := a.virtual_malloc size
    { a with blocks := a.blocks ++ [{ addr, size }] }
  else a

/-- A virtual `free` is only reported. -/
def replaceFunction (a : AndroidAlloc) : Request → AndroidAlloc
  | .malloc size => a.malloc size
  | .free _ => a

end AndroidAlloc

/-- The allocator when the emulation is started. -/
def Emulator.alloc (started : Emulator) : AndroidAlloc where
  heap := started.heap
  blocks := []

/-- The allocator after the calls of a run. -/
def allocated (started : Emulator) (requests : List Request) : AndroidAlloc :=
  requests.foldl AndroidAlloc.replaceFunction started.alloc

/-- Two regions that have no byte in common. -/
def Apart (a m b n : Nat) : Prop := a + m ≤ b ∨ b + n ≤ a

/-- Every block that is not null is within the pages of the heap, and apart from the regions that
were taken before the run and from the other blocks. -/
structure Usable (taken : Nat → Nat → Prop) (blocks : List Block) : Prop where
  inside : ∀ b ∈ blocks, b.addr ≠ 0 →
    HEAP_BASE ≤ b.addr.toNat ∧ b.addr.toNat + b.size.toNat ≤ HEAP_BASE + PAGE_ALIGN * 2
  apart : ∀ b ∈ blocks, b.addr ≠ 0 → ∀ a n, taken a n → Apart a n b.addr.toNat b.size.toNat
  pairwise : blocks.Pairwise fun b c =>
    b.addr ≠ 0 → c.addr ≠ 0 → Apart b.addr.toNat b.size.toNat c.addr.toNat c.size.toNat

/-- Every block ends within the pages of the heap, when those before it are rounded up. -/
def Room : Nat → List Request → Prop
  | _, [] => True
  | heap, .malloc size :: rest => heap + size.toNat ≤ HEAP_BASE + PAGE_ALIGN * 2 ∧ Room (heap + room size.toNat) rest
  | heap, .free _ :: rest => Room heap rest

end inspector.unicorn
