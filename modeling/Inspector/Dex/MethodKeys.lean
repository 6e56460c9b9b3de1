import Inspector.Dex.BytecodePatching
import Inspector.Dex.DvmMethod

namespace inspector.dex

section Dex

variable (dex : Dex) (data : List UInt8)

/-- The key of a method, from the definition of its class on. -/
def rawKey (def_ : ClassDef) (method : Method) : Reader Throwable JavaString := do
  let classType ← dex.typeNames def_.typeIndex
  key dex classType method

/-- The tables of a dex for a method with a signature. The types of its parameters are
unsigned there. -/
structure Describes (def_ : ClassDef) (method : Method) (types : List (BitVec 16)) (s : Signature) : Prop where
  declaringClass : (dex.typeNames def_.typeIndex).run data = .ok s.declaringClass.descriptor
  ids : ∃ methodId protoId, (dex.methodIds method.methodIndex).run data = .ok methodId ∧
    (dex.protoIds methodId.protoIndex).run data = .ok protoId ∧
    (dex.strings methodId.nameIndex).run data = .ok s.name.chars ∧
    (dex.typeNames protoId.returnTypeIndex).run data = .ok s.returnType.descriptor ∧
    (dex.readTypeList protoId.parametersOffset).run data = .ok types
  paramTypes : List.Forall₂ (fun type t => (dex.typeNames (type.setWidth 32)).run data = .ok t.descriptor) types
    s.paramTypes

variable {dex data}

theorem msb_eq_false_iff {type : BitVec 16} : type.msb = false ↔ type < 0x8000#16 := by
  rw [BitVec.msb_eq_false_iff_two_mul_lt, BitVec.lt_def]
  change 2 * type.toNat < 65536 ↔ type.toNat < 32768
  omega

/-- A type is found if it is no negative short. -/
theorem typeNames_signExtend {type : BitVec 16} {name : JavaString}
    (hname : (dex.typeNames (type.setWidth 32)).run data = .ok name) (s : JavaString) :
    (dex.typeNames (type.signExtend 32)).run data = .ok s ↔ s = name ∧ type < 0x8000#16 := by
  by_cases hsmall : type < 0x8000#16
  · rw [BitVec.signExtend_eq_setWidth_of_msb_false (msb_eq_false_iff.mpr hsmall), hname]
    constructor
    · intro hs
      cases hs
      exact ⟨rfl, hsmall⟩
    · rintro ⟨rfl, -⟩
      rfl
  · have hmsb : (type.signExtend 32).msb = true := by
      rw [BitVec.msb_signExtend]
      simpa [← msb_eq_false_iff] using hsmall
    have hfailed : (dex.typeNames (type.signExtend 32)).run data = .error .indexOutOfBounds := by
      rw [Dex.typeNames, Reader.run_bind, Dex.descriptorIndexFromTypeIndex, Dex.checkBounds, hmsb]
      rfl
    rw [hfailed]
    refine iff_of_false ?_ fun h => hsmall h.2
    intro hs
    cases hs

theorem typeListNames_eq_ok_iff {types : List (BitVec 16)} {paramTypes : List JavaType}
    (hall : List.Forall₂ (fun type t => (dex.typeNames (type.setWidth 32)).run data = .ok t.descriptor) types
      paramTypes) (s : JavaString) :
    (dex.typeListNames types).run data = .ok s ↔
      s = paramTypes.flatMap JavaType.descriptor ∧ ∀ type ∈ types, type < 0x8000#16 := by
  induction hall generalizing s with
  | nil =>
    constructor
    · intro hs
      cases hs
      exact ⟨rfl, by simp⟩
    · rintro ⟨rfl, -⟩
      rfl
  | cons hname _ ih =>
    simp only [Dex.typeListNames, Reader.run_bind_eq_ok, Reader.run_pure, Except.ok.injEq, typeNames_signExtend hname,
      ih, List.flatMap_cons, List.forall_mem_cons]
    constructor
    · rintro ⟨name, ⟨rfl, hfirst⟩, names, ⟨rfl, hrest⟩, rfl⟩
      exact ⟨rfl, hfirst, hrest⟩
    · rintro ⟨rfl, hfirst, hrest⟩
      exact ⟨_, ⟨rfl, hfirst⟩, _, ⟨rfl, hrest⟩, rfl⟩

/-- The key that is built from the dex is the key of the descriptors, unless a type is a
negative short. -/
theorem Describes.rawKey_eq_ok_iff {def_ : ClassDef} {method : Method} {types : List (BitVec 16)} {s : Signature}
    (hdescribes : Describes dex data def_ method types s) (k : JavaString) :
    (rawKey dex def_ method).run data = .ok k ↔
      k = s.key JavaClass.descriptor ∧ ∀ type ∈ types, type < 0x8000#16 := by
  obtain ⟨hdeclaring, ⟨methodId, protoId, hmethod, hproto, hname, hreturn, htypes⟩, hall⟩ := hdescribes
  simp only [rawKey, key, Reader.run_bind_eq_ok, Reader.run_pure, hdeclaring, hmethod, hproto, hname, hreturn, htypes,
    Except.ok.injEq, exists_eq_left', typeListNames_eq_ok_iff hall]
  constructor
  · rintro ⟨types, ⟨rfl, hsmall⟩, rfl⟩
    exact ⟨rfl, hsmall⟩
  · rintro ⟨rfl, hsmall⟩
    exact ⟨_, ⟨rfl, hsmall⟩, rfl⟩

end Dex

open vm.dvm in
/-- The three keys of a method are the same exactly when no array hides a package, no
parameter has a type that is a negative short, and no name needs a lenient decoder. -/
theorem keys_agree_iff {dex : Dex} {data : List UInt8} {def_ : ClassDef} {method : Method} {types : List (BitVec 16)}
    {m : Memory} {vmMethod : BitVec 32} {e : Executable} (lenient : Bool)
    (hdex : Describes dex data def_ method types e.signature) (hvm : vm.dvm.Describes m vmMethod e.signature) :
    ((rawKey dex def_ method).run data = .ok e.collectedKey ∧
        Method.getKey m lenient vmMethod = some e.collectedKey) ↔
      (∀ clazz ∈ e.signature.classes, clazz.packagedArray = false) ∧ (∀ type ∈ types, type < 0x8000#16) ∧
        (lenient = true ∨ ∀ n ∈ e.signature.names, basic n.chars = true) := by
  have hbasic := e.signature.basic_key
  rw [hdex.rawKey_eq_ok_iff, hvm.getKey_eq, e.collectedKey_eq, Signature.key_getBinaryClassName_iff, and_assoc,
    ← List.all_eq_true (p := fun n : Name => basic n.chars), ← hbasic]
  refine and_congr_right fun harrays => and_congr_right fun _ => ?_
  rw [Signature.key_getBinaryClassName_iff.mpr harrays, Option.some_inj]
  exact map_decodedChar_eq_self_iff

section Sample

def nameOf (s : String) (hdot : dot ∉ javaString s) (hnul : 0 ∉ javaString s) : Name := ⟨javaString s, hdot, hnul⟩

/-- A dex with one class `A`, whose native methods are `main(String[])` and
`sort(int[], String)`. -/
def dexOfSort : List UInt8 :=
  TableOfContents.magic ++ List.replicate 24 0 ++
  [468, 0x70, 0x12345678, 0, 0, 344, 9, 112, 5, 148, 2, 168, 0, 0, 2, 192, 1, 208, 228, 240].flatMap intBytes ++
  -- the string ids, type ids, proto ids and method ids
  [268, 273, 293, 296, 300, 305, 309, 330, 336, 0, 1, 2, 5, 6, 4, 2, 240, 3, 2, 248].flatMap intBytes ++
  [0, 1, 7, 0, 0, 0, 8, 0].flatMap shortBytes ++
  -- the class definition
  [0, 1, -1, 0, -1, 0, 256, 0].flatMap intBytes ++
  -- the type lists, the class data and the strings
  [2, 0, 3, 1, 1, 0, 4, 0].flatMap shortBytes ++
  [0, 0, 2, 0, 0, 0x89, 2, 0, 1, 0x89, 2, 0] ++
  (["LA;", "Ljava/lang/String;", "V", "VL", "VLL", "[I", "[Ljava/lang/String;", "main", "sort"].flatMap fun s =>
    UInt8.ofNat s.length :: (s.toList.map fun c => UInt8.ofNat c.toNat) ++ [0]) ++ [0, 0] ++
  -- the map
  [10, 0x0000, 1, 0, 0x0001, 9, 112, 0x0002, 5, 148, 0x0003, 2, 168, 0x0005, 2, 192, 0x0006, 1, 208,
    0x1001, 2, 240, 0x2000, 1, 256, 0x2002, 9, 268, 0x1000, 1, 344].flatMap intBytes

def classA : JavaType := .object ⟨[], nameOf "A" (by decide) (by decide)⟩

def javaLangString : JavaType :=
  .object ⟨[nameOf "java" (by decide) (by decide), nameOf "lang" (by decide) (by decide)],
    nameOf "String" (by decide) (by decide)⟩

def mainMethod : Executable :=
  .member (.method classA (nameOf "main" (by decide) (by decide)) [.array javaLangString] .void)

def sortMethod : Executable :=
  .member (.method classA (nameOf "sort" (by decide) (by decide)) [.array (.primitive .int), javaLangString] .void)

/-- The memory of a process that has loaded the dex, with the structures of its
file, of its class and of its two methods. -/
def memoryOfSort : Memory :=
  [(0x108, 0x10070), (0x10c, 0x10094), (0x118, 0x100a8), (0x12c, 0x10000), (0x218, 0x1010d),
    (0x300, 0x200), (0x310, 0x1014b), (0x314, 0x100), (0x318, 1),
    (0x400, 0x200), (0x410, 0x10151), (0x414, 0x100), (0x418, 0)].foldl
    (fun m word => m.copy word.1 (Memory.bytes4 word.2)) (Memory.copy (fun _ => 0) 0x10000 dexOfSort)

deriving instance DecidableEq for MethodId, ProtoId

/-- What the tables of the dex hold, by their indexes. -/
theorem dexOfSort_reads : (opened (fresh dexOfSort)).isSome = true ∧
    ∀ p ∈ opened (fresh dexOfSort), (p.1.typeNames 0).run p.2.data = .ok (javaString "LA;") ∧
      (p.1.typeNames 1).run p.2.data = .ok (javaString "Ljava/lang/String;") ∧
      (p.1.typeNames 2).run p.2.data = .ok (javaString "V") ∧
      (p.1.typeNames 3).run p.2.data = .ok (javaString "[I") ∧
      (p.1.typeNames 4).run p.2.data = .ok (javaString "[Ljava/lang/String;") ∧
      (p.1.methodIds 0).run p.2.data = .ok ⟨0, 1, 7⟩ ∧ (p.1.methodIds 1).run p.2.data = .ok ⟨0, 0, 8⟩ ∧
      (p.1.protoIds 0).run p.2.data = .ok ⟨4, 2, 240⟩ ∧ (p.1.protoIds 1).run p.2.data = .ok ⟨3, 2, 248⟩ ∧
      (p.1.strings 7).run p.2.data = .ok (javaString "main") ∧ (p.1.strings 8).run p.2.data = .ok (javaString "sort") ∧
      (p.1.readTypeList 240).run p.2.data = .ok [3, 1] ∧ (p.1.readTypeList 248).run p.2.data = .ok [4] := by
  decide +kernel

theorem describes_main : ∀ p ∈ opened (fresh dexOfSort),
    Describes p.1 p.2.data { typeIndex := 0, classDataOffset := 256 }
      { methodIndex := 0, accessFlags := 0x109, codeOffset := 0 } [4] mainMethod.signature := by
  intro p hp
  obtain ⟨hclass, -, hreturn, -, harray, hmethod, -, -, hproto, hname, -, -, htypes⟩ := dexOfSort_reads.2 p hp
  exact ⟨hclass, ⟨_, _, hmethod, hproto, hname, hreturn, htypes⟩, .cons harray .nil⟩

theorem describes_sort : ∀ p ∈ opened (fresh dexOfSort),
    Describes p.1 p.2.data { typeIndex := 0, classDataOffset := 256 }
      { methodIndex := 1, accessFlags := 0x109, codeOffset := 0 } [3, 1] sortMethod.signature := by
  intro p hp
  obtain ⟨hclass, hstring, hreturn, hints, -, -, hmethod, hproto, -, -, hname, htypes, -⟩ := dexOfSort_reads.2 p hp
  exact ⟨hclass, ⟨_, _, hmethod, hproto, hname, hreturn, htypes⟩, .cons hints (.cons hstring .nil)⟩

theorem vm_describes_main : vm.dvm.Describes memoryOfSort 0x300 mainMethod.signature where
  descriptor := ⟨0x200, 0x1010d, by decide +kernel⟩
  name := ⟨0x1014b, by decide +kernel⟩
  proto := ⟨0x100, 0x100b4, [4], by decide +kernel, by decide +kernel, ⟨0x1009c, 0x10078, 0x10126, by decide +kernel⟩,
    by decide +kernel, .cons ⟨0x100a4, 0x10088, 0x10136, by decide +kernel⟩ .nil⟩

theorem vm_describes_sort : vm.dvm.Describes memoryOfSort 0x400 sortMethod.signature where
  descriptor := ⟨0x200, 0x1010d, by decide +kernel⟩
  name := ⟨0x10151, by decide +kernel⟩
  proto := ⟨0x100, 0x100a8, [3, 1], by decide +kernel, by decide +kernel,
    ⟨0x1009c, 0x10078, 0x10126, by decide +kernel⟩, by decide +kernel,
    .cons ⟨0x100a0, 0x10084, 0x10132, by decide +kernel⟩
      (.cons ⟨0x10098, 0x10074, 0x10112, by decide +kernel⟩ .nil)⟩

/-- The keys of `sort` are the same. -/
theorem sort_keys_agree : ∃ dex section_, opened (fresh dexOfSort) = some (dex, section_) ∧
    (rawKey dex { typeIndex := 0, classDataOffset := 256 }
      { methodIndex := 1, accessFlags := 0x109, codeOffset := 0 }).run section_.data = .ok sortMethod.collectedKey ∧
    vm.dvm.Method.getKey memoryOfSort false 0x400 = some sortMethod.collectedKey := by
  obtain ⟨⟨dex, section_⟩, hopened⟩ := Option.isSome_iff_exists.mp dexOfSort_reads.1
  have hdex := describes_sort (dex, section_) (Option.mem_def.mpr hopened)
  have harrays : (sortMethod.signature.classes.all fun clazz => !clazz.packagedArray) = true := by decide +kernel
  have hbasic : (sortMethod.signature.names.all fun n => basic n.chars) = true := by decide +kernel
  refine ⟨dex, section_, hopened, (keys_agree_iff false hdex vm_describes_sort).mpr ⟨?_, ?_, Or.inr ?_⟩⟩
  · intro clazz hclazz
    simpa using List.all_eq_true.mp harrays clazz hclazz
  · simp only [List.forall_mem_cons]
    exact ⟨by decide, by decide, by simp⟩
  · exact List.all_eq_true.mp hbasic

/-- The instructions of `main` are collected under a key that is not the one of its
descriptors. -/
theorem main_keys_differ : ∃ dex section_, opened (fresh dexOfSort) = some (dex, section_) ∧
    Describes dex section_.data { typeIndex := 0, classDataOffset := 256 }
      { methodIndex := 0, accessFlags := 0x109, codeOffset := 0 } [4] mainMethod.signature ∧
    vm.dvm.Describes memoryOfSort 0x300 mainMethod.signature ∧
    (rawKey dex { typeIndex := 0, classDataOffset := 256 }
      { methodIndex := 0, accessFlags := 0x109, codeOffset := 0 }).run section_.data =
        .ok (javaString "LA;->main([Ljava/lang/String;)V") ∧
    (∀ lenient, vm.dvm.Method.getKey memoryOfSort lenient 0x300 =
        some (javaString "LA;->main([Ljava/lang/String;)V")) ∧
    mainMethod.collectedKey = javaString "LA;->main([Ljava.lang.String;)V" := by
  obtain ⟨⟨dex, section_⟩, hopened⟩ := Option.isSome_iff_exists.mp dexOfSort_reads.1
  have hdex := describes_main (dex, section_) (Option.mem_def.mpr hopened)
  refine ⟨dex, section_, hopened, hdex, vm_describes_main, ?_, fun lenient => ?_, by decide +kernel⟩
  · rw [hdex.rawKey_eq_ok_iff]
    exact ⟨by decide +kernel, by simp only [List.forall_mem_singleton]; decide⟩
  · rw [vm_describes_main.getKey_eq]
    cases lenient <;> decide +kernel

end Sample

end inspector.dex
