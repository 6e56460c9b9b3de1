import Inspector.Base.Throwing
import Inspector.Script.MethodHashUtils

open throwing inspector.dex

namespace inspector.script.hook

structure RuntimeClass where
  name : JavaString
  isEnum : Bool
  isPrimitive : Bool

/-- An object, as it is appended. Its text is what `String.valueOf` makes of it. -/
structure JavaObject where
  clazz : RuntimeClass
  isCharSequence : Bool
  isThrowable : Bool
  text : JavaString
  hashCode : BitVec 32

/-- A reference to an object, or to one of `n` arrays. -/
inductive Reference (n : Nat) where
  | null
  | object (o : JavaObject)
  | byteArrayOutputStream (data : List UInt8)
  | array (address : Fin n)

def Reference.isNull {n : Nat} : Reference n → Bool
  | null => true
  | _ => false

/-- The elements of an array of a primitive type other than `byte` are given as they are boxed. -/
inductive ArrayContent (n : Nat) where
  | bytes (data : List UInt8)
  | elements (values : List (Reference n))

abbrev Heap (n : Nat) := Fin n → ArrayContent n

def boxedByte (b : UInt8) : JavaObject where
  clazz := { name := javaString "java.lang.Byte", isEnum := false, isPrimitive := false }
  isCharSequence := false
  isThrowable := false
  text := javaString (toString b.toBitVec.toInt)
  hashCode := b.toBitVec.signExtend 32

/-- `Array.get` for all indices. -/
def ArrayContent.values {n : Nat} : ArrayContent n → List (Reference n)
  | bytes data => data.map fun b => .object (boxedByte b)
  | elements values => values

/-- What the inspector is told. -/
inductive Report where
  | inspect (data : List UInt8) (label : JavaString)
  | println (text : JavaString)
  | printlnObject (o : JavaObject)
  | err_println (text : JavaString)

/-- The buffer, the texts that were deleted from it, and what was reported. -/
structure Rendering where
  buffer : JavaString
  deleted : List JavaString
  reports : List Report

def Rendering.new : Rendering := { buffer := [], deleted := [], reports := [] }

inductive RenderError where
  | StackOverflowError
  | StringIndexOutOfBoundsException
  deriving DecidableEq

abbrev Render := Block RenderError Rendering Unit

section StringBuffer

def append (text : JavaString) : Render := modify fun s => { s with buffer := s.buffer ++ text }

/-- `delete`, from one index up to another one. -/
def delete (start : Int) (last : Nat) : Render := do
  let s ← get
  let last := min last s.buffer.length
  if start < 0 ∨ last < start then throw .StringIndexOutOfBoundsException
  else set { s with
    buffer := s.buffer.take start.toNat ++ s.buffer.drop last
    deleted := s.deleted ++ [(s.buffer.take last).drop start.toNat] }

def deleteLastTwo : Render := do
  let s ← get
  delete (s.buffer.length - 2) s.buffer.length

end StringBuffer

def report (r : Report) : Render := modify fun s => { s with reports := s.reports ++ [r] }

def toHexString (i : BitVec 32) : JavaString := javaString (String.ofList (Nat.toDigits 16 i.toNat))

def appendValueOf (obj : Option JavaObject) : Render := append ((obj.map JavaObject.text).getD (javaString "null"))

def appendQuote (isStr : Bool) : Render := if isStr then append (javaString "\"") else return ()

def appendHash : Option JavaObject → Render
  | none => append (javaString "NULL")
  | some obj => append (toHexString obj.hashCode)

/-- What `appendObject` has between the quotes. -/
def appendUnquoted (isStr : Bool) (obj : Option JavaObject) : Option RuntimeClass → Render
  | none => appendValueOf obj
  | some clazz =>
    if isStr || clazz.isEnum || clazz.isPrimitive || (javaString "java").isPrefixOf clazz.name then appendValueOf obj
    else do
      append (clazz.name ++ javaString "@")
      appendHash obj

/-- `clazz` is the class of the object, if there is an object. -/
def appendObject (obj : Option JavaObject) (clazz : Option RuntimeClass) : Render := do
  let isStr := obj.any JavaObject.isCharSequence
  appendQuote isStr
  appendUnquoted isStr obj clazz
  appendQuote isStr

section Params

variable {n : Nat} (heap : Heap n)

/-- The array that an object is, if it is one. -/
def arrayOf : Reference n → Option (ArrayContent n)
  | .byteArrayOutputStream data => some (.bytes data)
  | .array address => some (heap address)
  | _ => none

def appendHex : ArrayContent n → Render
  | .bytes data => do
    append (encodeHexString data)
    report (.inspect data (encodeHexString data))
  | .elements _ => return ()

def deleteSeparator (len : Nat) : Render := if len > 0 then deleteLastTwo else return ()

/-- What `appendParam` has for an object that is no array. -/
def appendSingle : Reference n → Render
  | .object o => appendObject (some o) (some o.clazz)
  | _ => append (javaString "null")

/-- `appendParam`, on a stack that has room for so many calls. -/
def appendParam : (depth : Nat) → Reference n → Render
  | 0, _ => throw .StackOverflowError
  | depth + 1, obj =>
    match arrayOf heap obj with
    | some content => do
      appendHex content
      append (javaString "[")
      content.values.forM (appendParam depth)
      deleteSeparator content.values.length
      append (javaString "], ")
    | none => do
      appendSingle obj
      append (javaString ", ")

/-- A member that was hooked. -/
structure HookedMember where
  declaringClassName : JavaString
  name : JavaString
  text : JavaString
  /-- It is a constructor of `String`. -/
  isStringConstructor : Bool

def printlnThrowable : Reference n → Render
  | .object o => if o.isThrowable then report (.printlnObject o) else return ()
  | _ => return ()

def appendArg (depth : Nat) (arg : Reference n) : Render := do
  append (javaString "\n  ")
  appendParam heap depth arg
  printlnThrowable arg

def appendArgs (depth : Nat) : Option (List (Reference n)) → Render
  | none => return ()
  | some args =>
    if args.length > 0 then do
      args.forM (appendArg heap depth)
      deleteLastTwo
      append (javaString "\n")
    else return ()

def appendResult (depth : Nat) (result : Reference n) : Render :=
  if result.isNull then return ()
  else do
    append (javaString " ret: ")
    appendParam heap depth result
    deleteLastTwo

def appendString (method : HookedMember) (thisObject : Option JavaObject) : Render :=
  if method.isStringConstructor then do
    append (javaString " string: ")
    appendValueOf thisObject
  else return ()

def appendOffset (executeTimeInMillis : BitVec 64) : Render :=
  if executeTimeInMillis ≠ -1 then
    append (javaString " offset=" ++ javaString (toString executeTimeInMillis.toInt) ++ javaString "ms")
  else return ()

def printBuffer (executeTimeInMillis : BitVec 64) : Render := do
  let s ← get
  if 1000 ≤ executeTimeInMillis.toInt then report (.err_println s.buffer) else report (.println s.buffer)

def afterHookedMethod (depth : Nat) (executeTimeInMillis : BitVec 64) (method : HookedMember)
    (thisObject : Option JavaObject) (result : Reference n) (args : Option (List (Reference n))) : Render := do
  append (method.declaringClassName ++ javaString "[")
  appendObject thisObject (thisObject.map JavaObject.clazz)
  append (javaString "]->" ++ method.name ++ javaString "(")
  appendArgs heap depth args
  append (javaString ")")
  appendResult heap depth result
  appendString method thisObject
  append (javaString " [" ++ method.text ++ javaString "]")
  appendOffset executeTimeInMillis
  printBuffer executeTimeInMillis

end Params

end inspector.script.hook
