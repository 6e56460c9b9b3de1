import Mathlib.Algebra.Ring.Nat
import Inspector.Base.Memory

namespace inspector.dexhunter

/-- An unsigned LEB128 value with the address right after it. The fifth byte is
taken whole. -/
def readUnsignedLeb128 (m : Memory) (ptr : BitVec 32) : BitVec 32 × BitVec 32 :=
  let result := m.u1 ptr
  if result ≤ 0x7f then (result, ptr + 1) else
  let cur := m.u1 (ptr + 1)
  let result := (result &&& 0x7f) ||| ((cur &&& 0x7f) <<< 7)
  if cur ≤ 0x7f then (result, ptr + 2) else
  let cur := m.u1 (ptr + 2)
  let result := result ||| ((cur &&& 0x7f) <<< 14)
  if cur ≤ 0x7f then (result, ptr + 3) else
  let cur := m.u1 (ptr + 3)
  let result := result ||| ((cur &&& 0x7f) <<< 21)
  if cur ≤ 0x7f then (result, ptr + 4) else
  let cur := m.u1 (ptr + 4)
  (result ||| (cur <<< 28), ptr + 5)

/-- A signed LEB128 value with the address right after it. -/
def readSignedLeb128 (m : Memory) (ptr : BitVec 32) : BitVec 32 × BitVec 32 :=
  let result := m.u1 ptr
  if result ≤ 0x7f then ((result <<< 25).sshiftRight 25, ptr + 1) else
  let cur := m.u1 (ptr + 1)
  let result := (result &&& 0x7f) ||| ((cur &&& 0x7f) <<< 7)
  if cur ≤ 0x7f then ((result <<< 18).sshiftRight 18, ptr + 2) else
  let cur := m.u1 (ptr + 2)
  let result := result ||| ((cur &&& 0x7f) <<< 14)
  if cur ≤ 0x7f then ((result <<< 11).sshiftRight 11, ptr + 3) else
  let cur := m.u1 (ptr + 3)
  let result := result ||| ((cur &&& 0x7f) <<< 21)
  if cur ≤ 0x7f then ((result <<< 4).sshiftRight 4, ptr + 4) else
  let cur := m.u1 (ptr + 4)
  (result ||| (cur <<< 28), ptr + 5)

theorem and_eq_self_iff (data : BitVec 32) : data &&& 0x7f = data ↔ data >>> 7 = 0 := by
  have hand : (data &&& 0x7f).toNat = data.toNat % 128 := by
    rw [BitVec.toNat_and]
    exact Nat.and_two_pow_sub_one_eq_mod data.toNat 7
  rw [← BitVec.toNat_inj, ← BitVec.toNat_inj, hand, BitVec.toNat_ushiftRight, Nat.shiftRight_eq_div_pow]
  change data.toNat % 128 = data.toNat ↔ data.toNat / 128 = 0
  omega

theorem shift_lt {data : BitVec 32} (hlarge : ¬ data >>> 7 = 0) : (data >>> 7).toNat < data.toNat := by
  rw [← BitVec.toNat_inj] at hlarge
  rw [BitVec.toNat_ushiftRight, Nat.shiftRight_eq_div_pow] at *
  change ¬ data.toNat / 128 = 0 at hlarge
  omega

def unsignedLeb128Size (data : BitVec 32) : Nat :=
  if data >>> 7 = 0 then 1 else unsignedLeb128Size (data >>> 7) + 1
termination_by data.toNat
decreasing_by exact shift_lt ‹_›

def writeLeb128 (data : BitVec 32) : List UInt8 :=
  if data &&& 0x7f = data then [⟨data.setWidth 8⟩]
  else ⟨(data &&& 0x7f ||| 0x80).setWidth 8⟩ :: writeLeb128 (data >>> 7)
termination_by data.toNat
decreasing_by
  apply shift_lt
  rw [← and_eq_self_iff]
  assumption

theorem length_writeLeb128 (data : BitVec 32) : (writeLeb128 data).length = unsignedLeb128Size data := by
  induction data using unsignedLeb128Size.induct with
  | case1 data hsmall =>
    rw [writeLeb128, if_pos ((and_eq_self_iff data).mpr hsmall), unsignedLeb128Size, if_pos hsmall]
    rfl
  | case2 data hlarge ih =>
    rw [writeLeb128, if_neg (mt (and_eq_self_iff data).mp hlarge), unsignedLeb128Size, if_neg hlarge,
      List.length_cons, ih]

structure DexField where
  fieldIdx : BitVec 32
  accessFlags : BitVec 32
  deriving DecidableEq, Repr

structure DexMethod where
  methodIdx : BitVec 32
  accessFlags : BitVec 32
  codeOff : BitVec 32
  deriving DecidableEq, Repr, Inhabited

/-- An expanded `class_data_item`. The four sizes of its header are the lengths of
the arrays, and an empty array stands for a null pointer. The two method arrays
lie one right after the other. -/
structure DexClassData where
  staticFields : List DexField
  instanceFields : List DexField
  directMethods : List DexMethod
  virtualMethods : List DexMethod
  deriving DecidableEq, Repr

def ReadClassDataField (m : Memory) (ptr : BitVec 32) : DexField × BitVec 32 :=
  let (fieldIdx, ptr) := readUnsignedLeb128 m ptr
  let (accessFlags, ptr) := readUnsignedLeb128 m ptr
  ({ fieldIdx, accessFlags }, ptr)

def ReadClassDataMethod (m : Memory) (ptr : BitVec 32) : DexMethod × BitVec 32 :=
  let (methodIdx, ptr) := readUnsignedLeb128 m ptr
  let (accessFlags, ptr) := readUnsignedLeb128 m ptr
  let (codeOff, ptr) := readUnsignedLeb128 m ptr
  ({ methodIdx, accessFlags, codeOff }, ptr)

/-- The loops of `ReadClassData`: so many items, one after the other. -/
def readItems {α : Type} (read : BitVec 32 → α × BitVec 32) : Nat → BitVec 32 → List α × BitVec 32
  | 0, ptr => ([], ptr)
  | count + 1, ptr =>
    let (item, ptr) := read ptr
    let (items, ptr) := readItems read count ptr
    (item :: items, ptr)

/-- The class data at an address, with the address right after it. There is none
at the null pointer or when its buffer cannot be allocated. -/
def ReadClassData (m : Memory) (pData : BitVec 32) (malloc : Bool) : Option (DexClassData × BitVec 32) :=
  if pData = 0 then none else
  let (staticFieldsSize, ptr) := readUnsignedLeb128 m pData
  let (instanceFieldsSize, ptr) := readUnsignedLeb128 m ptr
  let (directMethodsSize, ptr) := readUnsignedLeb128 m ptr
  let (virtualMethodsSize, ptr) := readUnsignedLeb128 m ptr
  if !malloc then none else
  let (staticFields, ptr) := readItems (ReadClassDataField m) staticFieldsSize.toNat ptr
  let (instanceFields, ptr) := readItems (ReadClassDataField m) instanceFieldsSize.toNat ptr
  let (directMethods, ptr) := readItems (ReadClassDataMethod m) directMethodsSize.toNat ptr
  let (virtualMethods, ptr) := readItems (ReadClassDataMethod m) virtualMethodsSize.toNat ptr
  some ({ staticFields, instanceFields, directMethods, virtualMethods }, ptr)

/-- All the values of a class data item, in the order in which they are encoded. -/
def DexClassData.values (pData : DexClassData) : List (BitVec 32) :=
  [BitVec.ofNat 32 pData.staticFields.length, BitVec.ofNat 32 pData.instanceFields.length,
    BitVec.ofNat 32 pData.directMethods.length, BitVec.ofNat 32 pData.virtualMethods.length] ++
  pData.staticFields.flatMap (fun field => [field.fieldIdx, field.accessFlags]) ++
  pData.instanceFields.flatMap (fun field => [field.fieldIdx, field.accessFlags]) ++
  pData.directMethods.flatMap (fun method => [method.methodIdx, method.accessFlags, method.codeOff]) ++
  pData.virtualMethods.flatMap (fun method => [method.methodIdx, method.accessFlags, method.codeOff])

/-- The length that `EncodeClassData` adds up before it allocates its buffer. -/
def DexClassData.encodedLength (pData : DexClassData) : Nat := (pData.values.map unsignedLeb128Size).sum

/-- The encoded class data, with the length of its buffer. -/
def EncodeClassData (pData : DexClassData) (malloc : Bool) : Option (List UInt8 × Nat) :=
  if malloc then some (pData.values.flatMap writeLeb128, pData.encodedLength) else none

/-- The buffer is written exactly to its end. -/
theorem length_EncodeClassData {pData : DexClassData} {malloc : Bool} {out : List UInt8} {len : Nat}
    (hencode : EncodeClassData pData malloc = some (out, len)) : out.length = len := by
  unfold EncodeClassData at hencode
  split at hencode
  · cases hencode
    rw [List.length_flatMap, DexClassData.encodedLength]
    simp only [length_writeLeb128]
  · cases hencode

end inspector.dexhunter
