import Inspector.Base.Utf8
import Inspector.Dex.FixDalvikBytecode

namespace inspector.dex

def dot : BitVec 16 := 0x2E

def slash : BitVec 16 := 0x2F

/-- A name, as a class file and a dex file may have it. -/
structure Name where
  chars : JavaString
  no_dot : dot ∉ chars
  no_nul : 0 ∉ chars

inductive Primitive where
  | boolean | byte | char | short | int | long | float | double
  deriving DecidableEq, Repr

def Primitive.code : Primitive → JavaString
  | boolean => javaString "Z"
  | byte => javaString "B"
  | char => javaString "C"
  | short => javaString "S"
  | int => javaString "I"
  | long => javaString "J"
  | float => javaString "F"
  | double => javaString "D"

/-- A class with the packages that it is in, the outermost first. The name of a nested
class begins with those around it. -/
structure ClassName where
  packages : List Name
  simpleName : Name

def ClassName.separatedBy (separator : BitVec 16) (name : ClassName) : JavaString :=
  (name.packages.flatMap fun n => n.chars ++ [separator]) ++ name.simpleName.chars

inductive JavaType where
  | primitive (p : Primitive)
  | object (name : ClassName)
  | array (component : JavaType)

/-- What a `Class` object stands for. -/
inductive JavaClass where
  | void
  | type (t : JavaType)

section Descriptor

def JavaType.descriptor : JavaType → JavaString
  | primitive p => p.code
  | object name => javaString "L" ++ name.separatedBy slash ++ javaString ";"
  | array component => javaString "[" ++ component.descriptor

def JavaClass.descriptor : JavaClass → JavaString
  | void => javaString "V"
  | type t => t.descriptor

end Descriptor

section Reflection

def ClassName.getName (name : ClassName) : JavaString := name.separatedBy dot

/-- How a component is written in the name of its array. -/
def JavaType.componentName : JavaType → JavaString
  | primitive p => p.code
  | object name => javaString "L" ++ name.getName ++ javaString ";"
  | array component => javaString "[" ++ component.componentName

/-- `getName` of an array. -/
def arrayName (component : JavaType) : JavaString := javaString "[" ++ component.componentName

def replace (oldChar newChar : BitVec 16) (s : JavaString) : JavaString :=
  s.map fun c => if c = oldChar then newChar else c

def getBinaryClassName : JavaClass → JavaString
  | .void => javaString "V"
  | .type (.array component) => arrayName component
  | .type (.object name) => javaString "L" ++ replace dot slash name.getName ++ javaString ";"
  -- The class of an array of the primitive type takes its place.
  | .type (.primitive p) => replace dot slash ((arrayName (.primitive p)).drop 1)

namespace reflect

inductive Member where
  | method (declaringClass : JavaType) (name : Name) (paramTypes : List JavaType) (returnType : JavaClass)
  | constructor (declaringClass : JavaType) (paramTypes : List JavaType)

def Member.getDeclaringClass : Member → JavaType
  | method declaringClass .. => declaringClass
  | constructor declaringClass _ => declaringClass

end reflect

def getMemberKey (member : reflect.Member) : JavaString :=
  let (name, paramTypes, returnType) := match member with
    | .constructor _ paramTypes => (javaString "<init>", paramTypes, JavaClass.void)
    | .method _ name paramTypes returnType => (name.chars, paramTypes, returnType)
  getBinaryClassName (.type member.getDeclaringClass) ++ javaString "->" ++ name ++ javaString "(" ++
    (paramTypes.flatMap fun clazz => getBinaryClassName (.type clazz)) ++ javaString ")" ++
    getBinaryClassName returnType

/-- What bytecode is collected for. -/
inductive Executable where
  | member (m : reflect.Member)
  | classInit (clazz : JavaType)

/-- The key of `collectBytecode`. -/
def Executable.collectedKey : Executable → JavaString
  | member m => getMemberKey m
  | classInit clazz => getBinaryClassName (.type clazz) ++ javaString "-><clinit>()V"

end Reflection

/-- What a key says of a method. -/
structure Signature where
  declaringClass : JavaType
  name : Name
  paramTypes : List JavaType
  returnType : JavaClass

namespace Signature

/-- The key of a method whose types are written in some way. -/
def key (write : JavaClass → JavaString) (s : Signature) : JavaString :=
  write (.type s.declaringClass) ++ javaString "->" ++ s.name.chars ++ javaString "(" ++
    (s.paramTypes.flatMap fun t => write (.type t)) ++ javaString ")" ++ write s.returnType

/-- The classes that a key writes. -/
def classes (s : Signature) : List JavaClass :=
  .type s.declaringClass :: s.returnType :: s.paramTypes.map .type

end Signature

def Executable.signature : Executable → Signature
  | member (.method declaringClass name paramTypes returnType) => { declaringClass, name, paramTypes, returnType }
  | member (.constructor declaringClass paramTypes) =>
    { declaringClass, name := ⟨javaString "<init>", by decide, by decide⟩, paramTypes, returnType := .void }
  | classInit clazz =>
    { declaringClass := clazz, name := ⟨javaString "<clinit>", by decide, by decide⟩, paramTypes := []
      returnType := .void }

/-- The key of a collected executable is that of its signature with binary names. -/
theorem Executable.collectedKey_eq (e : Executable) : e.collectedKey = e.signature.key getBinaryClassName := by
  cases e with
  | member m =>
    cases m with
    | method declaringClass name paramTypes returnType => rfl
    | constructor declaringClass paramTypes => rfl
  | classInit clazz =>
    simp only [collectedKey, signature, Signature.key, List.flatMap_nil, List.append_assoc]
    rfl

section Characters

/-- The names in a type. -/
def JavaType.names : JavaType → List Name
  | primitive _ => []
  | object name => name.packages ++ [name.simpleName]
  | array component => component.names

def JavaClass.names : JavaClass → List Name
  | void => []
  | type t => t.names

/-- The names in a key. -/
def Signature.names (s : Signature) : List Name := s.name :: s.classes.flatMap JavaClass.names

/-- The characters that are in keys and in no name. -/
def marks : JavaString := javaString "VZBCSIJFDL/;[->()"

variable {p : BitVec 16 → Bool}

/-- What holds of the marks of a key holds of a text made of them. -/
theorem all_of_marks {s : JavaString} (hmarks : marks.all p = true) (hs : (s.all fun c => marks.contains c) = true) :
    s.all p = true := by
  rw [List.all_eq_true] at hmarks hs ⊢
  intro c hc
  exact hmarks c (List.contains_iff_mem.mp (hs c hc))

/-- What holds of the separator holds of a name if it does of all its parts. -/
theorem ClassName.all_slashed (hmarks : marks.all p = true) (name : ClassName) :
    (name.separatedBy slash).all p = (name.packages ++ [name.simpleName]).all fun n => n.chars.all p := by
  have hslash : [slash].all p = true := all_of_marks hmarks (by decide)
  simp only [separatedBy, List.all_append, List.all_flatMap, hslash, Bool.and_true, List.all_cons, List.all_nil]

/-- A test that the marks pass is a test of the names. -/
theorem JavaType.all_descriptor (hmarks : marks.all p = true) (t : JavaType) :
    t.descriptor.all p = t.names.all fun n => n.chars.all p := by
  induction t with
  | primitive code =>
    apply all_of_marks hmarks
    cases code <;> decide
  | object name =>
    have hfirst : (javaString "L").all p = true := all_of_marks hmarks (by decide)
    have hlast : (javaString ";").all p = true := all_of_marks hmarks (by decide)
    rw [descriptor, List.all_append, List.all_append, hfirst, hlast, Bool.true_and, Bool.and_true]
    exact name.all_slashed hmarks
  | array component ih =>
    have hfirst : (javaString "[").all p = true := all_of_marks hmarks (by decide)
    rw [descriptor, List.all_append, hfirst, Bool.true_and]
    exact ih

/-- The same for a descriptor, with its brackets. -/
theorem JavaClass.all_descriptor (hmarks : marks.all p = true) (clazz : JavaClass) :
    clazz.descriptor.all p = clazz.names.all fun n => n.chars.all p := by
  cases clazz with
  | void => exact all_of_marks hmarks (by decide)
  | type t => exact t.all_descriptor hmarks

/-- The same for a key, with its arrow and its parentheses. -/
theorem Signature.all_key (hmarks : marks.all p = true) (write : JavaClass → JavaString) (s : Signature) :
    (s.key write).all p = (s.name.chars.all p && s.classes.all fun clazz => (write clazz).all p) := by
  have harrow : (javaString "->").all p = true := all_of_marks hmarks (by decide)
  have hopen : (javaString "(").all p = true := all_of_marks hmarks (by decide)
  have hclose : (javaString ")").all p = true := all_of_marks hmarks (by decide)
  simp only [key, classes, List.all_append, List.all_flatMap, List.all_cons, List.all_map, harrow, hopen, hclose,
    Bool.and_true]
  rw [Bool.and_comm ((write _).all p), Bool.and_assoc, Bool.and_assoc, Bool.and_comm (s.paramTypes.all _)]
  rfl

/-- For keys that are made of descriptors only the names matter. -/
theorem Signature.all_key_descriptor (hmarks : marks.all p = true) (s : Signature) :
    (s.key JavaClass.descriptor).all p = s.names.all fun n => n.chars.all p := by
  rw [all_key hmarks, names, List.all_cons, List.all_flatMap]
  congr 1
  exact congrArg s.classes.all (funext fun clazz => clazz.all_descriptor hmarks)

/-- A text has no such character exactly when all its characters differ from it. -/
theorem all_ne_iff_notMem {c : BitVec 16} {s : JavaString} : (s.all (· != c)) = true ↔ c ∉ s := by
  rw [List.all_eq_true]
  constructor
  · intro hall hc
    exact bne_iff_ne.mp (hall c hc) rfl
  · intro hnot x hx
    exact bne_iff_ne.mpr fun heq => hnot (heq ▸ hx)

/-- Descriptors have no dots, since names are between slashes there. -/
theorem JavaClass.dot_notMem_descriptor (clazz : JavaClass) : dot ∉ clazz.descriptor := by
  rw [← all_ne_iff_notMem, all_descriptor (by decide), List.all_eq_true]
  exact fun n _ => all_ne_iff_notMem.mpr n.no_dot

/-- Descriptors have no zeros. -/
theorem JavaClass.nul_notMem_descriptor (clazz : JavaClass) : 0 ∉ clazz.descriptor := by
  rw [← all_ne_iff_notMem, all_descriptor (by decide), List.all_eq_true]
  exact fun n _ => all_ne_iff_notMem.mpr n.no_nul

/-- So neither do keys that are made of them. -/
theorem Signature.dot_notMem_key (s : Signature) : dot ∉ s.key JavaClass.descriptor := by
  rw [← all_ne_iff_notMem, all_key_descriptor (by decide), List.all_eq_true]
  exact fun n _ => all_ne_iff_notMem.mpr n.no_dot

end Characters

section PackagedArray

/-- The elements are objects of a class in a package. -/
def JavaType.inPackage : JavaType → Bool
  | primitive _ => false
  | object name => !name.packages.isEmpty
  | array component => component.inPackage

/-- An array with such elements. -/
def JavaClass.packagedArray : JavaClass → Bool
  | type (.array component) => component.inPackage
  | _ => false

/-- The characters of a name are those of its parts and its separators. -/
theorem ClassName.mem_separatedBy {separator c : BitVec 16} {name : ClassName} :
    c ∈ name.separatedBy separator ↔
      (∃ n ∈ name.packages, c ∈ n.chars ∨ c = separator) ∨ c ∈ name.simpleName.chars := by
  simp only [separatedBy, List.mem_append, List.mem_flatMap, List.mem_singleton]

/-- The name of a class has a dot exactly when it is in a package. -/
theorem ClassName.dot_mem_getName_iff {name : ClassName} : dot ∈ name.getName ↔ name.packages ≠ [] := by
  rw [getName, mem_separatedBy]
  constructor
  · rintro (⟨n, hn, -⟩ | hdot)
    · exact List.ne_nil_of_mem hn
    · exact absurd hdot name.simpleName.no_dot
  · intro hpackages
    obtain ⟨n, hn⟩ := List.exists_mem_of_ne_nil _ hpackages
    exact Or.inl ⟨n, hn, Or.inr rfl⟩

/-- A character that does not occur is not replaced. -/
theorem replace_of_notMem {oldChar newChar : BitVec 16} {s : JavaString} (hs : oldChar ∉ s) :
    replace oldChar newChar s = s := by
  refine (List.map_congr_left fun c hc => ?_).trans s.map_id
  apply if_neg
  rintro rfl
  exact hs hc

/-- With slashes for its dots, a name is as it is in descriptors. -/
theorem replace_getName (name : ClassName) : replace dot slash name.getName = name.separatedBy slash := by
  have hname (n : Name) : replace dot slash n.chars = n.chars := replace_of_notMem n.no_dot
  rw [ClassName.getName, ClassName.separatedBy, ClassName.separatedBy, replace, List.map_append, List.map_flatMap]
  congr 1
  · refine congrArg (List.flatMap · name.packages) (funext fun n => ?_)
    rw [List.map_append]
    exact congrArg (· ++ [slash]) (hname n)
  · exact hname name.simpleName

/-- The name of an array type has the dots of its elements. -/
theorem JavaType.dot_mem_componentName_iff {t : JavaType} : dot ∈ t.componentName ↔ t.inPackage = true := by
  induction t with
  | primitive code =>
    refine iff_of_false ?_ (by simp [inPackage])
    cases code <;> decide
  | object name =>
    have hfirst : dot ∉ javaString "L" := by decide
    have hlast : dot ∉ javaString ";" := by decide
    simp only [componentName, List.mem_append, hfirst, hlast, false_or, or_false]
    rw [ClassName.dot_mem_getName_iff, inPackage]
    simp
  | array component ih =>
    have hfirst : dot ∉ javaString "[" := by decide
    simp only [componentName, List.mem_append, hfirst, false_or]
    exact ih

/-- Where no package is named, a component is written as its descriptor. -/
theorem JavaType.componentName_eq {t : JavaType} (hpackage : t.inPackage = false) : t.componentName = t.descriptor := by
  induction t with
  | primitive p => rfl
  | object name =>
    have hpackages : name.packages = [] := by simpa [inPackage] using hpackage
    rw [componentName, descriptor, ClassName.getName, ClassName.separatedBy, ClassName.separatedBy, hpackages]
    rfl
  | array component ih => rw [componentName, descriptor, ih hpackage]

/-- A binary name keeps its dots exactly when it is that of an array of such a class. -/
theorem dot_mem_getBinaryClassName_iff {clazz : JavaClass} :
    dot ∈ getBinaryClassName clazz ↔ clazz.packagedArray = true := by
  cases clazz with
  | void => decide
  | type t =>
    cases t with
    | primitive p => cases p <;> decide
    | object name =>
      rw [getBinaryClassName, replace_getName]
      exact iff_of_false (JavaClass.dot_notMem_descriptor (.type (.object name))) (by simp [JavaClass.packagedArray])
    | array component =>
      have hfirst : dot ∉ javaString "[" := by decide
      simp only [getBinaryClassName, arrayName, List.mem_append, hfirst, false_or]
      exact JavaType.dot_mem_componentName_iff

/-- For all other classes the binary name is the descriptor. -/
theorem getBinaryClassName_eq {clazz : JavaClass} (harray : clazz.packagedArray = false) :
    getBinaryClassName clazz = clazz.descriptor := by
  cases clazz with
  | void => rfl
  | type t =>
    cases t with
    | primitive p => cases p <;> decide
    | object name =>
      rw [getBinaryClassName, replace_getName]
      rfl
    | array component =>
      rw [getBinaryClassName, arrayName, JavaType.componentName_eq harray]
      rfl

/-- The names of reflection give the key of the descriptors exactly where no array
hides a package. -/
theorem Signature.key_getBinaryClassName_iff {s : Signature} :
    s.key getBinaryClassName = s.key JavaClass.descriptor ↔ ∀ clazz ∈ s.classes, clazz.packagedArray = false := by
  constructor
  · intro hkeys
    have hdot : dot ∉ s.key getBinaryClassName := by
      rw [hkeys]
      exact s.dot_notMem_key
    rw [← all_ne_iff_notMem, all_key (by decide), Bool.and_eq_true, List.all_eq_true (l := s.classes)] at hdot
    intro clazz hclazz
    by_contra harray
    rw [Bool.not_eq_false, ← dot_mem_getBinaryClassName_iff] at harray
    exact all_ne_iff_notMem.mp (hdot.2 clazz hclazz) harray
  · intro harrays
    have hparams : (s.paramTypes.flatMap fun t => getBinaryClassName (.type t)) =
        s.paramTypes.flatMap fun t => JavaClass.descriptor (.type t) := by
      apply List.flatMap_congr
      intro t ht
      apply getBinaryClassName_eq
      exact harrays (.type t) (by simp [classes, ht])
    have hdeclaring := getBinaryClassName_eq (harrays (.type s.declaringClass) (by simp [classes]))
    have hreturn := getBinaryClassName_eq (harrays s.returnType (by simp [classes]))
    rw [key, key, hparams, hdeclaring, hreturn]

end PackagedArray

/-- No character is outside the basic plane. -/
def basic (s : JavaString) : Bool := s.all fun c => !stream.isSurrogate c

/-- A key is made of basic characters exactly when its names are. -/
theorem Signature.basic_key (s : Signature) :
    basic (s.key JavaClass.descriptor) = s.names.all fun n => basic n.chars := all_key_descriptor (by decide) s

/-- A decoder leaves a string as it is if it is lenient or the string has no character
for it to replace. -/
theorem map_decodedChar_eq_self_iff {lenient : Bool} {s : JavaString} :
    s.map (stream.decodedChar lenient) = s ↔ lenient = true ∨ basic s = true := by
  have hmap : s.map (stream.decodedChar lenient) = s ↔ ∀ c ∈ s, stream.decodedChar lenient c = c := by
    conv_lhs => rhs; rw [← s.map_id]
    exact List.map_inj_left
  rw [hmap, basic, List.all_eq_true]
  simp only [stream.decodedChar_eq_self_iff, Bool.not_eq_true']
  cases lenient with
  | true => simp
  | false => simp

end inspector.dex
