import Inspector.Base.Throwing

open throwing

namespace inspector.script

/-- The kinds of exceptions that the handlers tell apart. -/
inductive Throwable where
  | ClassNotFoundException
  | NoSuchMethodException
  | exception
  | error
  deriving DecidableEq, Repr

/-- A constructor or a method of a class. -/
inductive Member (C : Type) where
  | constructor (declaringClass : C) (parameterTypes : List C)
  | method (declaringClass : C) (name : String) (parameterTypes : List C) (returnType : C)
  deriving DecidableEq, Repr

/-- The reference of a Lua function. -/
abbrev LuaObject := Nat

inductive PrimitiveType where
  | int
  | char
  | byte
  | boolean
  | long
  | float
  | double
  deriving DecidableEq, Repr

/-- What a class loader answers. -/
structure ClassLoader (C : Type) where
  loadClass : String → Except Throwable C
  forName : String → Except Throwable C

/-- What reflection and the hook framework answer. -/
structure Vm (C : Type) where
  getDeclaredConstructors : C → Except Throwable (List (Member C))
  getDeclaredMethods : C → Except Throwable (List (Member C))
  getDeclaredConstructor : C → List C → Except Throwable (Member C)
  getDeclaredMethod : C → String → List C → Except Throwable (Member C)
  isNative : Member C → Bool
  objectMethods : List (Member C)
  primitiveClass : PrimitiveType → C
  stringClass : C
  newArray : C → Nat → Except Throwable C
  toString : Member C → String
  createCallback : Option LuaObject → Except Throwable Unit
  hookMethod : Member C → Except Throwable Unit
  printHook : Member C → Except Throwable Unit
  unhook : Member C → Except Throwable Unit

/-- A hook that the framework has installed, and whether a hook function has asked for it. -/
structure Hook (C : Type) where
  id : Nat
  hookedMethod : Member C
  throughFunction : Bool
  deriving DecidableEq, Repr

/-- An `AbstractUnhook`. Its set is null if no hook function has made it. -/
structure Unhook (C : Type) where
  userHook : Bool
  unhook : Hook C
  hookedSet : Bool
  deriving DecidableEq, Repr

structure HookFunctionRequest where
  clazz : String
  method : Option String
  callback : Option LuaObject
  params : List String
  deriving DecidableEq, Repr

/-- A call that a hook function makes while it hooks a member, and how it ends. -/
inductive HookCall (C : Type) where
  | hookMethod (member : Member C) (ends : Except Throwable Unit)
  | printHook (member : Member C) (ends : Except Throwable Unit)

/-- A hook function, the hook list of the hooker, the hooks that are installed, and the
calls that there were, the newest first. -/
structure HookState (C : Type) where
  hookList : List HookFunctionRequest
  hookedSet : List (Member C)
  hooks : List (Unhook C)
  installed : List (Hook C)
  calls : List (HookCall C)
  nextHook : Nat

def HookState.initial {C : Type} : HookState C where
  hookList := []
  hookedSet := []
  hooks := []
  installed := []
  calls := []
  nextHook := 0

abbrev HookM (C : Type) := Block Throwable (HookState C)

namespace HookCall

variable {C : Type}

def member : HookCall C → Member C
  | .hookMethod member _ => member
  | .printHook member _ => member

def ends : HookCall C → Except Throwable Unit
  | .hookMethod _ ends => ends
  | .printHook _ ends => ends

/-- The call has thrown. -/
def Threw (call : HookCall C) : Prop := ∃ e, call.ends = .error e

end HookCall

section Hooker

variable {C : Type} (vm : Vm C)

def logCall (call : HookCall C) : HookM C Unit := modify fun s => { s with calls := call :: s.calls }

/-- `hookMethod` of the framework. -/
def hookMethod (member : Member C) (throughFunction : Bool) : HookM C (Hook C) := do
  Block.ofExcept (vm.hookMethod member)
  let s ← get
  let hook : Hook C := { id := s.nextHook, hookedMethod := member, throughFunction }
  set { s with installed := hook :: s.installed, nextHook := s.nextHook + 1 }
  return hook

/-- `hookMethod` of the hooker. -/
def Hooker.hookMethod (member : Member C) (userHook : Bool) : HookM C Unit := do
  let unhook ← script.hookMethod vm member false
  let uh : Unhook C := { userHook, unhook, hookedSet := false }
  modify fun s => { s with hooks := s.hooks ++ [uh] }

def getHook (s : HookState C) (index : Int) : Option (Unhook C) :=
  if 0 ≤ index then s.hooks[index.toNat]? else none

variable [DecidableEq C]

/-- `unhook` of the framework. -/
def unhookInternal (hook : Hook C) : HookM C Unit := do
  Block.ofExcept (vm.unhook hook.hookedMethod)
  modify fun s => { s with installed := s.installed.erase hook }

def AbstractUnhook.unhook (self : Unhook C) : HookM C Unit := do
  unhookInternal vm self.unhook
  modify fun s => { s with hooks := s.hooks.erase self }
  if self.hookedSet then
    modify fun s => { s with hookedSet := s.hookedSet.filter (· ≠ self.unhook.hookedMethod) }

def unhookIndex (index : Int) : HookM C Unit := do
  match getHook (← get) index with
  | none => return ()
  | some unhook => AbstractUnhook.unhook vm unhook

def unhookLoop : List (Unhook C) → HookM C Unit
  | [] => return ()
  | unhook :: rest => do
    AbstractUnhook.unhook vm unhook
    unhookLoop rest

def unhookKeywords (keywords : String) : HookM C Unit := do
  unhookLoop vm ((← get).hooks.filter fun unhook =>
    unhook.userHook && (vm.toString unhook.unhook.hookedMethod).contains keywords)

end Hooker

end inspector.script
