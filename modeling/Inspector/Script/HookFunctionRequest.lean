import Inspector.Script.Hooker

open throwing

namespace inspector.script

/-- The letters that `equalsIgnoreCase` takes for an ASCII letter. -/
def foldCase (c : Char) : Char :=
  if c = 'İ' ∨ c = 'ı' then 'i' else if c = 'ſ' then 's' else if c = 'K' then 'k' else c.toLower

/-- `equalsIgnoreCase` for an ASCII name in lower case. -/
def equalsIgnoreCase (name className : List Char) : Bool := className.map foldCase = name

def PrimitiveType.name : PrimitiveType → String
  | .int => "int"
  | .char => "char"
  | .byte => "byte"
  | .boolean => "boolean"
  | .long => "long"
  | .float => "float"
  | .double => "double"

/-- The primitive types that a parameter can have. There is no `short`. -/
def primitiveTypes : List PrimitiveType := [.int, .char, .byte, .boolean, .long, .float, .double]

/-- Takes the brackets off the end of a class name, which is given from its end. -/
def stripBrackets : List Char → Nat → List Char × Nat
  | ']' :: '[' :: className, dimensions => stripBrackets className (dimensions + 1)
  | className, dimensions => (className, dimensions)

namespace Member

variable {C : Type} [DecidableEq C]

def isNamed (name : String) : Member C → Bool
  | .constructor .. => false
  | .method _ methodName .. => methodName = name

/-- Equal but for the declaring class. -/
def sameMethod : Member C → Member C → Bool
  | .method _ name parameterTypes returnType, .method _ otherName otherTypes otherReturn =>
    otherName = name ∧ otherTypes = parameterTypes ∧ otherReturn = returnType
  | _, _ => false

end Member

section Classes

variable {C : Type} (vm : Vm C)

/-- An array class, unless there are no dimensions. -/
def findArrayClass (clazz : C) (dimensions : Nat) : Except Throwable C :=
  if dimensions < 1 then .ok clazz else vm.newArray clazz dimensions

def findClass (classLoader : ClassLoader C) (className : String) : Except Throwable C := do
  let (reversed, dimensions) := stripBrackets className.toList.reverse 0
  match primitiveTypes.find? fun type => equalsIgnoreCase type.name.toList reversed.reverse with
  | some type => findArrayClass vm (vm.primitiveClass type) dimensions
  | none =>
    if reversed.reverse = "java.lang.String_fuck".toList then return vm.stringClass
    else findArrayClass vm (← classLoader.forName (String.ofList reversed.reverse)) dimensions

variable [DecidableEq C]

def isObjectMethod (method : Member C) : Bool := vm.objectMethods.any (Member.sameMethod method)

namespace HookFunctionRequest

variable (request : HookFunctionRequest)

/-- The members that are hooked if there is none with the given parameters. -/
def overloads (class1 : C) : Except Throwable (List (Member C)) := do
  match request.method with
  | none => vm.getDeclaredConstructors class1
  | some "@" =>
    let constructors ← vm.getDeclaredConstructors class1
    let methods ← vm.getDeclaredMethods class1
    return constructors.filter vm.isNative ++ methods.filter vm.isNative
  | some method =>
    let methods ← vm.getDeclaredMethods class1
    return methods.filter (Member.isNamed method)

def getHookMethods (class1 : C) (paramClass : List C) : Except Throwable (List (Member C)) :=
  let declared := match request.method with
    | none => vm.getDeclaredConstructor class1 paramClass
    | some method => vm.getDeclaredMethod class1 method paramClass
  match declared with
  | .ok member => .ok [member]
  | .error .NoSuchMethodException => do
    let list ← request.overloads vm class1
    if list.isEmpty then throw .NoSuchMethodException else return list
  | .error e => .error e

end HookFunctionRequest

end Classes

section Hooks

variable {C : Type} (vm : Vm C)

/-- `executeHook` of a request. It prints that the member is hooked after it is. -/
def executeHook (member : Member C) : HookM C (Unhook C) := do
  logCall (.hookMethod member (vm.hookMethod member))
  let unhook ← hookMethod vm member true
  logCall (.printHook member (vm.printHook member))
  Block.ofExcept (vm.printHook member)
  return { userHook := true, unhook, hookedSet := true }

def hookMember (member : Member C) : HookM C Unit := do
  modify fun s => { s with hookedSet := member :: s.hookedSet }
  let unhook ← executeHook vm member
  modify fun s => { s with hooks := s.hooks ++ [unhook] }

variable [DecidableEq C]

/-- The loop over the members, which tells whether one was hooked. -/
def hookLoop (skips : Member C → Bool) : List (Member C) → Bool → HookM C Bool
  | [], hooked => return hooked
  | member :: rest, hooked => do
    let s ← get
    if member ∈ s.hookedSet ∨ skips member then hookLoop skips rest hooked
    else
      hookMember vm member
      hookLoop skips rest true

def HookFunctionRequest.tryHook (request : HookFunctionRequest) (classLoader : Option (ClassLoader C)) :
    HookM C Bool := do
  match classLoader with
  | none => return false
  | some classLoader =>
    let class1 ← Block.ofExcept (classLoader.loadClass request.clazz)
    Block.ofExcept (vm.createCallback request.callback)
    if request.method = some "*" then
      let constructors ← Block.ofExcept (vm.getDeclaredConstructors class1)
      let _ ← hookLoop vm (fun _ => false) constructors false
      let methods ← Block.ofExcept (vm.getDeclaredMethods class1)
      let _ ← hookLoop vm (isObjectMethod vm) methods false
      return true
    else
      let paramClass ← Block.ofExcept (request.params.mapM (findClass vm classLoader))
      let hookMethods ← Block.ofExcept (request.getHookMethods vm class1 paramClass)
      hookLoop vm (fun _ => false) hookMethods false

end Hooks

end inspector.script
