import Inspector.Base.Machine
import Inspector.Script.HookFunctionRequest

open machine throwing

namespace inspector.script

variable {C : Type}

def Throwable.isException : Throwable → Bool
  | .error => false
  | _ => true

/-- A dex file, and how its `print` ends. -/
structure DexFileProvider (C : Type) where
  classLoader : Option (ClassLoader C)
  print : Except Throwable Unit

section Functions

variable [DecidableEq C] (vm : Vm C)

/-- Errors are thrown on, exceptions are logged. -/
def catchException (x : HookM C Bool) : HookM C Bool :=
  tryCatch x fun e => if e.isException then return false else throw e

def hookDex (request : HookFunctionRequest) (dex : DexFileProvider C) : HookM C Bool := do
  if ← request.tryHook vm dex.classLoader then
    Block.ofExcept dex.print
    return true
  else return false

def dexLoop (request : HookFunctionRequest) : List (DexFileProvider C) → Bool → HookM C Bool
  | [], successfully => return successfully
  | dex :: rest, successfully => do
    let hooked ← catchException (hookDex vm request dex)
    dexLoop request rest (successfully || hooked)

/-- `executeHook` of the hook function. The class loader is that of the application, if
there is one. -/
def HookFunction.executeHook (request : HookFunctionRequest)
    (dumpDexFiles : Except Throwable (List (DexFileProvider C)))
    (application : Option (Option (ClassLoader C))) : HookM C Unit := do
  modify fun s => { s with hookList := s.hookList ++ [request] }
  let dexes ← Block.ofExcept dumpDexFiles
  let successfully ← dexLoop vm request dexes false
  match successfully, application with
  | false, some classLoader =>
    let _ ← catchException (request.tryHook vm classLoader)
  | _, _ => return ()

def notifyLoop (classLoader : Option (ClassLoader C)) : List HookFunctionRequest → HookM C Unit
  | [] => return ()
  | request :: rest => do
    let _ ← tryCatch (request.tryHook vm classLoader) fun _ => return false
    notifyLoop classLoader rest

def HookFunction.notifyClassLoader (classLoader : Option (ClassLoader C)) : HookM C Unit := do
  notifyLoop vm classLoader (← get).hookList

end Functions

/-- What the console, a new class loader or another part of the inspector does. -/
inductive HookAction (C : Type) where
  | executeHook (request : HookFunctionRequest) (dumpDexFiles : Except Throwable (List (DexFileProvider C)))
      (application : Option (Option (ClassLoader C)))
  | notifyClassLoader (classLoader : Option (ClassLoader C))
  | unhook (index : Int)
  | unhookKeywords (keywords : String)
  | hookMethod (member : Member C) (userHook : Bool)

/-- An action, and what is answered while it is done. -/
structure HookEvent (C : Type) where
  vm : Vm C
  action : HookAction C

variable [DecidableEq C]

def HookEvent.block (event : HookEvent C) : HookM C Unit :=
  match event.action with
  | .executeHook request dumpDexFiles application =>
    HookFunction.executeHook event.vm request dumpDexFiles application
  | .notifyClassLoader classLoader => HookFunction.notifyClassLoader event.vm classLoader
  | .unhook index => unhookIndex event.vm index
  | .unhookKeywords keywords => unhookKeywords event.vm keywords
  | .hookMethod member userHook => Hooker.hookMethod event.vm member userHook

namespace HookState

/-- An exception ends the action, and leaves the state as it is by then. -/
def step (s : HookState C) (event : HookEvent C) : Except Unit (HookState C) := .ok (event.block.after s)

def run (s : HookState C) (events : List (HookEvent C)) : HookState C :=
  events.foldl (fun s event => event.block.after s) s

end HookState

end inspector.script
