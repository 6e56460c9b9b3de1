import Inspector.Dex.MemberKey
import Mathlib.Data.Set.Function

open inspector.dex

namespace inspector.script

/-- What MD5 makes of a text. -/
structure Digest where
  bytes : List UInt8
  length_eq : bytes.length = 16

/-- `Class.getName`. -/
def getName : JavaClass → JavaString
  | .void => javaString "void"
  | .type (.primitive .boolean) => javaString "boolean"
  | .type (.primitive .byte) => javaString "byte"
  | .type (.primitive .char) => javaString "char"
  | .type (.primitive .short) => javaString "short"
  | .type (.primitive .int) => javaString "int"
  | .type (.primitive .long) => javaString "long"
  | .type (.primitive .float) => javaString "float"
  | .type (.primitive .double) => javaString "double"
  | .type (.object name) => name.getName
  | .type (.array component) => arrayName component

/-- The names of parameter types, one directly behind the other. -/
def parameterNames (parameterTypes : List JavaType) : JavaString :=
  parameterTypes.flatMap fun clazz => getName (.type clazz)

structure Method where
  returnType : JavaClass
  name : Name
  parameterTypes : List JavaType

structure Constructor where
  parameterTypes : List JavaType

structure Field where
  type : JavaType
  name : Name

def Method.text (method : Method) : JavaString :=
  getName method.returnType ++ javaString "*" ++ method.name.chars ++ javaString "(" ++
    parameterNames method.parameterTypes ++ javaString ")"

def Constructor.text (constructor : Constructor) : JavaString :=
  javaString "(" ++ parameterNames constructor.parameterTypes ++ javaString ")"

def Field.text (field : Field) : JavaString := getName (.type field.type) ++ javaString "*" ++ field.name.chars

section Hash

def digitsLower : Vector (BitVec 16) 16 :=
  #v[0x30, 0x31, 0x32, 0x33, 0x34, 0x35, 0x36, 0x37, 0x38, 0x39, 0x61, 0x62, 0x63, 0x64, 0x65, 0x66]

def toDigit (value : BitVec 4) : BitVec 16 := digitsLower.get value.toFin

/-- `Hex.encodeHexString`. -/
def encodeHexString (data : List UInt8) : JavaString :=
  data.flatMap fun b => [toDigit (b.toBitVec.extractLsb' 4 4), toDigit (b.toBitVec.extractLsb' 0 4)]

/-- `Character.isDigit`, for the characters of hexadecimal texts. -/
def isDigit (c : BitVec 16) : Bool := 0x30 ≤ c && c ≤ 0x39

/-- A text that begins with a letter. -/
def fix (hash : JavaString) (hhash : hash ≠ []) : JavaString :=
  if isDigit (hash.head hhash) then 0x76 :: hash.tail else hash

variable (md5 : JavaString → Digest)

def md5Hex (data : JavaString) : JavaString := encodeHexString (md5 data).bytes

variable {md5}

/-- The first character is that of a value of four bits. -/
theorem exists_md5Hex (data : JavaString) : ∃ value rest, md5Hex md5 data = toDigit value :: rest := by
  unfold md5Hex
  obtain ⟨bytes, hlength⟩ := md5 data
  cases bytes with
  | nil => cases hlength
  | cons b bytes => exact ⟨_, _, rfl⟩

theorem md5Hex_ne_nil (data : JavaString) : md5Hex md5 data ≠ [] := by
  obtain ⟨value, rest, hhash⟩ : ∃ value rest, md5Hex md5 data = toDigit value :: rest := exists_md5Hex data
  rw [hhash]
  exact List.cons_ne_nil _ _

variable (md5)

def hashMethod (method : Method) : JavaString := fix (md5Hex md5 method.text) (md5Hex_ne_nil _)

def hashConstructor (constructor : Constructor) : JavaString := fix (md5Hex md5 constructor.text) (md5Hex_ne_nil _)

def hashField (field : Field) : JavaString := fix (md5Hex md5 field.text) (md5Hex_ne_nil _)

end Hash

section Members

/-- The characters of ASCII that are in the names of a dex file. -/
def nameChars : JavaString := javaString "ABCDEFGHIJKLMNOPQRSTUVWXYZabcdefghijklmnopqrstuvwxyz0123456789 $-_"

/-- A name as a dex file has it. -/
def SimpleName (name : Name) : Prop := ∀ c ∈ name.chars, c < 0x80 → c ∈ nameChars

instance (name : Name) : Decidable (SimpleName name) :=
  List.decidableBAll (fun c => c < 0x80 → c ∈ nameChars) name.chars

structure Method.Simple (method : Method) : Prop where
  returnType : ∀ name ∈ method.returnType.names, SimpleName name
  name : SimpleName method.name
  parameterTypes : ∀ t ∈ method.parameterTypes, ∀ name ∈ t.names, SimpleName name

def Constructor.Simple (constructor : Constructor) : Prop :=
  ∀ t ∈ constructor.parameterTypes, ∀ name ∈ t.names, SimpleName name

structure Field.Simple (field : Field) : Prop where
  type : ∀ name ∈ field.type.names, SimpleName name
  name : SimpleName field.name

/-- The members that a class declares. -/
structure Members where
  methods : List Method
  constructors : List Constructor
  fields : List Field
  methods_simple : ∀ method ∈ methods, method.Simple
  constructors_simple : ∀ constructor ∈ constructors, constructor.Simple
  fields_simple : ∀ field ∈ fields, field.Simple

/-- The texts that are hashed. -/
def Members.texts (members : Members) : List JavaString :=
  members.methods.map Method.text ++ members.constructors.map Constructor.text ++ members.fields.map Field.text

end Members

end inspector.script
