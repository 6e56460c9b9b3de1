import Inspector.DexHunter.ClassData

namespace inspector.dexhunter

/-- The handlers of one catch list: an exception type and an address each, and a
catch-all address when the count is not positive. -/
def skipHandlers (m : Memory) (ptr : BitVec 32) : BitVec 32 :=
  let (num_of_handlers, ptr) := readSignedLeb128 m ptr
  let num := if num_of_handlers.sle 0 then -num_of_handlers else num_of_handlers
  let ptr := (readItems (readUnsignedLeb128 m) (if num.sle 0 then 0 else 2 * num.toNat) ptr).2
  if num_of_handlers.sle 0 then (readUnsignedLeb128 m ptr).2 else ptr

def codeitem_end (m : Memory) (pData : BitVec 32) : BitVec 32 :=
  let (num_of_list, ptr) := readUnsignedLeb128 m pData
  (readItems (fun ptr => ((), skipHandlers m ptr)) num_of_list.toNat ptr).2

/-- The fields of a `DexCode` that the length of the item depends on. -/
def triesSize (m : Memory) (code : BitVec 32) : BitVec 16 := m.u2 (code + 6)

def insnsSize (m : Memory) (code : BitVec 32) : BitVec 32 := m.u4 (code + 12)

def dexGetTries (m : Memory) (code : BitVec 32) : BitVec 32 :=
  let insnsEnd := code + 16 + 2 * insnsSize m code
  if insnsEnd &&& 3 = 0 then insnsEnd else insnsEnd + 2

def dexGetCatchHandlerData (m : Memory) (code : BitVec 32) : BitVec 32 :=
  dexGetTries m code + 8 * (triesSize m code).setWidth 32

theorem and_three_toNat (pointer : BitVec 32) : (pointer &&& 3).toNat = pointer.toNat % 4 := by
  rw [BitVec.toNat_and]
  exact Nat.and_two_pow_sub_one_eq_mod pointer.toNat 2

/-- The length of the code item at an address. -/
def codeItemLen (m : Memory) (code : BitVec 32) : BitVec 32 :=
  if triesSize m code ≠ 0 then codeitem_end m (dexGetCatchHandlerData m code) - code
  else 16 + insnsSize m code * 2

end inspector.dexhunter
