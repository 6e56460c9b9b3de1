import Inspector.Base.Machine

namespace inspector.advisor

inductive Thread where
  | main
  | background (n : Nat)
  deriving DecidableEq, Repr

/-- A message that is submitted, with its number and its thread. -/
structure InspectCache where
  number : Nat
  thread : Thread
  canCache : Bool
  deriving DecidableEq, Repr

/-- How a write to the console ends. -/
inductive Write where
  | complete
  | ioException
  | networkOnMainThread
  deriving DecidableEq, Repr

/-- The console and the messages that wait for one. It is recorded how many messages
have been submitted, which have been written completely, and the queue from which each
evicted message was polled. -/
structure AbstractInspector where
  console : Option Nat
  cacheQueue : List InspectCache
  submitted : List InspectCache
  written : List InspectCache
  evictions : List (List InspectCache)
  deriving DecidableEq, Repr

/-- The steps that are taken one after the other. -/
inductive Action where
  | writeToConsole (thread : Thread) (canCache : Bool) (write : Write)
  /-- `flushCache`, in which some write throws or none. -/
  | flushCache (failing : Option Nat)
  | connect (console : Nat)
  | closeConsole
  deriving DecidableEq, Repr

/-- The loop that polls while there are too many messages. It gives what is left, and
the queue before each poll. -/
def trim : List InspectCache → List InspectCache × List (List InspectCache)
  | [] => ([], [])
  | cache :: rest =>
    if 10000 < (cache :: rest).length then ((trim rest).1, (cache :: rest) :: (trim rest).2)
    else (cache :: rest, [])

/-- The loop of `flushCache`. It gives what has been written and what is left. The
message whose write throws has been polled. -/
def drain : Option Nat → List InspectCache → List InspectCache × List InspectCache
  | _, [] => ([], [])
  | none, cache :: rest => (cache :: (drain none rest).1, (drain none rest).2)
  | some 0, _ :: rest => ([], rest)
  | some (k + 1), cache :: rest => (cache :: (drain (some k) rest).1, (drain (some k) rest).2)

namespace AbstractInspector

variable (s : AbstractInspector)

def initial : AbstractInspector where
  console := none
  cacheQueue := []
  submitted := []
  written := []
  evictions := []

def offer (cache : InspectCache) : AbstractInspector := { s with cacheQueue := s.cacheQueue ++ [cache] }

def evict : AbstractInspector :=
  { s with cacheQueue := (trim s.cacheQueue).1, evictions := s.evictions ++ (trim s.cacheQueue).2 }

/-- Whether a message is written to the console at once. -/
def writesAtOnce (thread : Thread) : Bool := s.console.isSome && thread ≠ .main

def writeToConsole (cache : InspectCache) (write : Write) : AbstractInspector :=
  let s := { s with submitted := s.submitted ++ [cache] }
  if s.writesAtOnce cache.thread then
    match write with
    | .complete => { s with written := s.written ++ [cache] }
    | .ioException => { s with console := none }
    | .networkOnMainThread => s.offer cache
  else if cache.canCache then (s.offer cache).evict
  else s

/-- Without a console the first write throws. -/
def flushCache (failing : Option Nat) : AbstractInspector :=
  let result := drain (if s.console.isSome then failing else some 0) s.cacheQueue
  { s with written := s.written ++ result.1, cacheQueue := result.2 }

def step : Action → Except Unit AbstractInspector
  | .writeToConsole thread canCache write =>
    .ok (s.writeToConsole { number := s.submitted.length, thread, canCache } write)
  | .flushCache failing => .ok (s.flushCache failing)
  | .connect console => if s.console.isNone then .ok { s with console := some console } else .error ()
  | .closeConsole => .ok { s with console := none }

/-- A run of such steps. -/
def run (actions : List Action) : Except Unit AbstractInspector := machine.run step initial actions

end AbstractInspector

end inspector.advisor
