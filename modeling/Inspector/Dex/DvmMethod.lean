import Inspector.Base.Memory
import Inspector.Dex.MemberKey

namespace inspector.dex.vm.dvm

section Pointer

variable (m : Memory) (lenient : Bool)

/-- A null pointer cannot be read through. -/
def getPointer (address : BitVec 32) : Option (BitVec 32) :=
  if m.u4 address = 0 then none else some (m.u4 address)

def getString (address : BitVec 32) : Option JavaString := (m.cString address).map (stream.newString lenient)

/-- The shorts of a new array. -/
def getShortArray (address size : BitVec 32) : Option (List (BitVec 16)) :=
  if size.msb then none
  else some ((List.range size.toNat).map fun i => m.u2 (address + BitVec.ofNat 32 (2 * i)))

namespace DexTypeList

def getList (list : BitVec 32) : Option (List (BitVec 16)) := getShortArray m (list + 4) (m.u4 list)

end DexTypeList

namespace DvmDexFile

variable (dexFile : BitVec 32)

def getBaseAddr : Option (BitVec 32) := getPointer m (dexFile + 0x2C)

def getStringId (index : BitVec 32) : Option (BitVec 32) := do return (← getPointer m (dexFile + 0x8)) + index * 4

/-- Where the characters of a string begin, after their number. -/
def stringData (stringId : BitVec 32) : Option (BitVec 32) := do
  let pointer := (← getBaseAddr m dexFile) + m.u4 stringId
  let offset ← m.findFrom (· ≤ 0x7F) pointer
  return pointer + BitVec.ofNat 32 (offset + 1)

def dexGetStringData (stringId : BitVec 32) : Option JavaString := do
  getString m lenient (← stringData m dexFile stringId)

def dexStringById (idx : BitVec 32) : Option JavaString := do
  dexGetStringData m lenient dexFile (← getStringId m dexFile idx)

def dexGetTypeId (index : BitVec 32) : Option (BitVec 32) := do return (← getPointer m (dexFile + 0xC)) + index * 4

def dexStringByTypeIdx (idx : BitVec 32) : Option JavaString := do
  dexStringById m lenient dexFile (m.u4 (← dexGetTypeId m dexFile idx))

def getProtoId (index : BitVec 32) : Option (BitVec 32) := do return (← getPointer m (dexFile + 0x18)) + index * 12

/-- The list of the parameters, null where there are none. -/
def dexGetProtoParameters (dexProtoId : BitVec 32) : Option (Option (BitVec 32)) :=
  let parametersOff := m.u4 (dexProtoId + 8)
  if parametersOff = 0 then some none else do return some ((← getBaseAddr m dexFile) + parametersOff)

end DvmDexFile

/-- `toString` of a list. -/
def DexTypeList.toString (dexFile list : BitVec 32) : Option JavaString := do
  let names ← (← getList m list).mapM fun idx => DvmDexFile.dexStringByTypeIdx m lenient dexFile (idx.setWidth 32)
  return javaString "(" ++ names.flatten ++ javaString ")"

/-- What a key writes for a list that may be null. -/
def DexTypeList.inKey (dexFile : BitVec 32) : Option (BitVec 32) → Option JavaString
  | none => some (javaString "()")
  | some list => DexTypeList.toString m lenient dexFile list

namespace Method

variable (method : BitVec 32)

def getDescriptor : Option JavaString := do
  let clazz ← getPointer m method
  getString m lenient (← getPointer m (clazz + 0x18))

def getName : Option JavaString := do getString m lenient (← getPointer m (method + 0x10))

def getDexFile : Option (BitVec 32) := getPointer m (method + 0x14)

def getProtoIdx : BitVec 32 := m.u4 (method + 0x18)

def getKey : Option JavaString := do
  let dexFile ← getDexFile m method
  let dexProtoId ← DvmDexFile.getProtoId m dexFile (getProtoIdx m method)
  let dexTypeList ← DvmDexFile.dexGetProtoParameters m dexFile dexProtoId
  let retType ← DvmDexFile.dexStringByTypeIdx m lenient dexFile (m.u4 (dexProtoId + 4))
  let descriptor ← getDescriptor m lenient method
  let name ← getName m lenient method
  let types ← DexTypeList.inKey m lenient dexFile dexTypeList
  return descriptor ++ javaString "->" ++ name ++ types ++ retType

end Method

end Pointer

section Describes

variable (m : Memory) (lenient : Bool)

/-- A zero byte follows the encoding of a string. -/
def HoldsString (address : BitVec 32) (s : JavaString) : Prop :=
  m.slice address (stream.encodeUTF s).length = stream.encodeUTF s ∧
    m (address + BitVec.ofNat 32 (stream.encodeUTF s).length) = 0

instance decidableHoldsString (address : BitVec 32) (s : JavaString) : Decidable (HoldsString m address s) :=
  inferInstanceAs (Decidable (_ ∧ _))

/-- A type of the dex file has a descriptor. -/
def HasDescriptor (dexFile idx : BitVec 32) (descriptor : JavaString) : Prop :=
  ∃ typeId stringId address, DvmDexFile.dexGetTypeId m dexFile idx = some typeId ∧
    DvmDexFile.getStringId m dexFile (m.u4 typeId) = some stringId ∧
    DvmDexFile.stringData m dexFile stringId = some address ∧ HoldsString m address descriptor

/-- The types of the parameters. -/
def parameterTypes (dexFile dexProtoId : BitVec 32) : Option (List (BitVec 16)) := do
  match ← DvmDexFile.dexGetProtoParameters m dexFile dexProtoId with
  | none => some []
  | some list => DexTypeList.getList m list

/-- The structures of the VM for a method with a signature. -/
structure Describes (method : BitVec 32) (s : Signature) : Prop where
  descriptor : ∃ clazz address, getPointer m method = some clazz ∧ getPointer m (clazz + 0x18) = some address ∧
    HoldsString m address s.declaringClass.descriptor
  name : ∃ address, getPointer m (method + 0x10) = some address ∧ HoldsString m address s.name.chars
  proto : ∃ dexFile dexProtoId types, Method.getDexFile m method = some dexFile ∧
    DvmDexFile.getProtoId m dexFile (Method.getProtoIdx m method) = some dexProtoId ∧
    HasDescriptor m dexFile (m.u4 (dexProtoId + 4)) s.returnType.descriptor ∧
    parameterTypes m dexFile dexProtoId = some types ∧
    List.Forall₂ (fun idx t => HasDescriptor m dexFile (idx.setWidth 32) t.descriptor) types s.paramTypes

variable {m}

theorem getString_of_holds {address : BitVec 32} {s : JavaString} (hholds : HoldsString m address s) (hnul : 0 ∉ s) :
    getString m lenient address = some (s.map (stream.decodedChar lenient)) := by
  obtain ⟨hbytes, hend⟩ := hholds
  rw [getString, Memory.cString_eq_some hbytes (stream.zero_notMem_encodeUTF s) hend, Option.map_some,
    stream.newString_encodeUTF lenient hnul]

theorem dexStringByTypeIdx_of_hasDescriptor {dexFile idx : BitVec 32} {descriptor : JavaString}
    (hhas : HasDescriptor m dexFile idx descriptor) (hnul : 0 ∉ descriptor) :
    DvmDexFile.dexStringByTypeIdx m lenient dexFile idx = some (descriptor.map (stream.decodedChar lenient)) := by
  obtain ⟨typeId, stringId, address, htype, hstring, hdata, hholds⟩ := hhas
  simp only [DvmDexFile.dexStringByTypeIdx, DvmDexFile.dexStringById, DvmDexFile.dexGetStringData, htype, hstring,
    hdata, Option.bind_eq_bind, Option.bind_some]
  exact getString_of_holds lenient hholds hnul

theorem mapM_dexStringByTypeIdx {dexFile : BitVec 32} {types : List (BitVec 16)} {paramTypes : List JavaType}
    (hall : List.Forall₂ (fun idx t => HasDescriptor m dexFile (idx.setWidth 32) t.descriptor) types paramTypes) :
    types.mapM (fun idx => DvmDexFile.dexStringByTypeIdx m lenient dexFile (idx.setWidth 32)) =
      some (paramTypes.map fun t => t.descriptor.map (stream.decodedChar lenient)) := by
  induction hall with
  | nil => rfl
  | cons hhas _ ih =>
    rw [List.mapM_cons, dexStringByTypeIdx_of_hasDescriptor lenient hhas (JavaClass.nul_notMem_descriptor (.type _)),
      ih]
    rfl

/-- The parameters of a method, as its key writes them. -/
theorem inKey_of_types {dexFile dexProtoId : BitVec 32} {dexTypeList : Option (BitVec 32)}
    {types : List (BitVec 16)} {paramTypes : List JavaType}
    (hlist : DvmDexFile.dexGetProtoParameters m dexFile dexProtoId = some dexTypeList)
    (htypes : parameterTypes m dexFile dexProtoId = some types)
    (hall : List.Forall₂ (fun idx t => HasDescriptor m dexFile (idx.setWidth 32) t.descriptor) types paramTypes) :
    DexTypeList.inKey m lenient dexFile dexTypeList =
      some (javaString "(" ++ (paramTypes.flatMap fun t => t.descriptor.map (stream.decodedChar lenient)) ++
        javaString ")") := by
  rw [parameterTypes, hlist] at htypes
  cases dexTypeList with
  | none =>
    cases htypes
    cases hall
    have hempty : javaString "()" = javaString "(" ++ [] ++ javaString ")" := by decide
    exact congrArg some hempty
  | some list =>
    have hget : DexTypeList.getList m list = some types := htypes
    unfold DexTypeList.inKey DexTypeList.toString
    simp only [hget, Option.bind_eq_bind, Option.bind_some, mapM_dexStringByTypeIdx lenient hall]
    rfl

theorem getDescriptor_eq {method clazz address : BitVec 32} {s : JavaString} (hclazz : getPointer m method = some clazz)
    (haddress : getPointer m (clazz + 0x18) = some address) (hholds : HoldsString m address s) (hnul : 0 ∉ s) :
    Method.getDescriptor m lenient method = some (s.map (stream.decodedChar lenient)) := by
  simp only [Method.getDescriptor, hclazz, haddress, Option.bind_eq_bind, Option.bind_some]
  exact getString_of_holds lenient hholds hnul

theorem getName_eq {method address : BitVec 32} {s : JavaString}
    (haddress : getPointer m (method + 0x10) = some address) (hholds : HoldsString m address s) (hnul : 0 ∉ s) :
    Method.getName m lenient method = some (s.map (stream.decodedChar lenient)) := by
  simp only [Method.getName, haddress, Option.bind_eq_bind, Option.bind_some]
  exact getString_of_holds lenient hholds hnul

/-- The key that the VM gives is the key of the descriptors, with its characters as
the decoder leaves them. -/
theorem Describes.getKey_eq {method : BitVec 32} {s : Signature} (hdescribes : Describes m method s) :
    Method.getKey m lenient method = some ((s.key JavaClass.descriptor).map (stream.decodedChar lenient)) := by
  obtain ⟨⟨clazz, address, hclazz, haddress, hdescriptor⟩, ⟨nameAddress, hname, hchars⟩,
    dexFile, dexProtoId, types, hdexFile, hproto, hreturn, htypes, hall⟩ := hdescribes
  obtain ⟨dexTypeList, hlist⟩ :
      ∃ dexTypeList, DvmDexFile.dexGetProtoParameters m dexFile dexProtoId = some dexTypeList := by
    rw [parameterTypes] at htypes
    obtain ⟨dexTypeList, hlist, -⟩ := Option.bind_eq_some_iff.mp htypes
    exact ⟨dexTypeList, hlist⟩
  have hret := dexStringByTypeIdx_of_hasDescriptor lenient hreturn s.returnType.nul_notMem_descriptor
  have hdeclaring := getDescriptor_eq lenient hclazz haddress hdescriptor
    (JavaClass.nul_notMem_descriptor (.type s.declaringClass))
  have harrow : (javaString "->").map (stream.decodedChar lenient) = javaString "->" := by cases lenient <;> decide
  have hopen : (javaString "(").map (stream.decodedChar lenient) = javaString "(" := by cases lenient <;> decide
  have hclose : (javaString ")").map (stream.decodedChar lenient) = javaString ")" := by cases lenient <;> decide
  simp only [Method.getKey, hdexFile, hproto, hlist, hret, hdeclaring, getName_eq lenient hname hchars s.name.no_nul,
    inKey_of_types lenient hlist htypes hall, Option.bind_eq_bind, Option.bind_some, Signature.key, List.map_append,
    List.map_flatMap, harrow, hopen, hclose, JavaClass.descriptor, List.append_assoc]
  rfl

end Describes

end inspector.dex.vm.dvm
