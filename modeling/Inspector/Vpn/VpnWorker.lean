import Mathlib.Data.List.Perm.Basic
import Inspector.Vpn.TCPDispatcher

namespace inspector.vpn

/-- The ready set of a selected key, with what the channel then does for each of
its operations. -/
structure Ready where
  write : Option WriteResult
  read : Option ReadResult
  connect : Option ConnectResult
  deriving DecidableEq, Repr

/-- A selector reports no operation outside the interest set. -/
def Ready.within (ready : Ready) (interestOps : Ops) : Bool :=
  (!ready.write.isSome || interestOps.write) && (!ready.read.isSome || interestOps.read) &&
    (!ready.connect.isSome || interestOps.connect)

namespace Outcome

def andThen (outcome : Outcome) (next : Session → Outcome) : Outcome :=
  match outcome with
  | .returns s => next s
  | .throwsChecked e s => .throwsChecked e s
  | .throws e => .throws e

end Outcome

/-- A method of the dispatcher is called when its operation is in the ready set. -/
def Session.whenReady {α : Type} (s : Session) (process : Session → α → Outcome) : Option α → Outcome
  | some result => process s result
  | none => .returns s

/-- `processKey`: the methods of a TCP dispatcher all return `false`, so one ready
operation after the other is processed. -/
def Session.processKey (s : Session) (ready : Ready) : Outcome :=
  (s.whenReady processWritableKey ready.write).andThen fun s =>
  (s.whenReady processReadableKey ready.read).andThen fun s =>
  s.whenReady processConnectableKey ready.connect

/-- The worker: every dispatcher made so far, the map from sessions to
dispatchers, and the registered keys of the selector. A key is the one of the
dispatcher with the same number. -/
structure VpnWorker where
  dispatchers : List Session
  sessionMap : TcpSessionKey → Option Nat
  keys : List Nat

namespace VpnWorker

def new : VpnWorker where
  dispatchers := []
  sessionMap := fun _ => none
  keys := []

/-- What the decoder calls for the packets it is fed. `result` is what
`matchesTcp` finds, `opened` whether the channel could be opened. -/
inductive Callback where
  | onEstablish (sessionKey : TcpSessionKey) (result : Option TcpDirection) (segment : TcpSegment)
      (opened : Bool) (identify : BitVec 32)
  | handleTx (sessionKey : TcpSessionKey) (data : List UInt8)
  | postProcess (sessionKey : TcpSessionKey) (segment : TcpSegment) (result : Option TcpDirection)
      (time : BitVec 64)
  | onReset (sessionKey : TcpSessionKey)
  | onFinish (sessionKey : TcpSessionKey)
  deriving DecidableEq, Repr

def remove (w : VpnWorker) (sessionKey : TcpSessionKey) : VpnWorker :=
  { w with sessionMap := fun other => if other = sessionKey then none else w.sessionMap other }

/-- The dispatcher of a session, with its number. -/
def lookup (w : VpnWorker) (sessionKey : TcpSessionKey) : Option (Nat × Session) := do
  let id ← w.sessionMap sessionKey
  let tcp ← w.dispatchers[id]?
  return (id, tcp)

def store (w : VpnWorker) (id : Nat) (s : Session) : VpnWorker :=
  { w with dispatchers := w.dispatchers.set id s }

def onEstablish (w : VpnWorker) (sessionKey : TcpSessionKey) (result : Option TcpDirection)
    (segment : TcpSegment) (opened : Bool) (identify : BitVec 32) : VpnWorker :=
  if result = some .ToServer && opened then
    { dispatchers := w.dispatchers ++ [Session.new sessionKey segment identify]
      sessionMap := fun other => if other = sessionKey then some w.dispatchers.length else w.sessionMap other
      keys := w.keys ++ [w.dispatchers.length] }
  else w

def handleTx (w : VpnWorker) (sessionKey : TcpSessionKey) (data : List UInt8) :
    Except RuntimeException VpnWorker :=
  match w.lookup sessionKey with
  | none => .ok w
  | some (id, tcp) => do
    let tcp ← tcp.handleTx data
    return w.store id tcp

def postProcess (w : VpnWorker) (sessionKey : TcpSessionKey) (segment : TcpSegment)
    (result : Option TcpDirection) (time : BitVec 64) : VpnWorker :=
  if segment.isFin then
    match w.lookup sessionKey, result with
    | some (id, tcp), some direction =>
      let (tcp, done) := tcp.handleFin segment direction time
      let w := w.store id tcp
      if done then w.remove sessionKey else w
    | _, _ => w
  else w

def onReset (w : VpnWorker) (sessionKey : TcpSessionKey) : VpnWorker :=
  let w := match w.lookup sessionKey with
    | some (id, tcp) => w.store id tcp.onReset
    | none => w
  w.remove sessionKey

def onFinish (w : VpnWorker) (sessionKey : TcpSessionKey) : VpnWorker := w.remove sessionKey

def callback (w : VpnWorker) : Callback → Except RuntimeException VpnWorker
  | .onEstablish sessionKey result segment opened identify =>
    .ok (w.onEstablish sessionKey result segment opened identify)
  | .handleTx sessionKey data => w.handleTx sessionKey data
  | .postProcess sessionKey segment result time => .ok (w.postProcess sessionKey segment result time)
  | .onReset sessionKey => .ok (w.onReset sessionKey)
  | .onFinish sessionKey => .ok (w.onFinish sessionKey)

def callbacks (w : VpnWorker) (calls : List Callback) : Except RuntimeException VpnWorker :=
  machine.run callback w calls

/-- The work on one key: a method of its dispatcher, and then the calls of the
decoder for what the dispatcher has sent. Only a FIN or a RST, each the last
segment of a method, leads to a call that reaches a dispatcher. -/
def onKey (w : VpnWorker) (method : Session → Except RuntimeException Session)
    (id : Nat) (calls : List Callback) : Except RuntimeException VpnWorker :=
  match w.dispatchers[id]? with
  | none => .ok w
  | some tcp => do
    let tcp ← method tcp
    (w.store id tcp).callbacks calls

def key (w : VpnWorker) (id : Nat) : Option SelectionKey := w.dispatchers[id]?.map Session.key

def isValid (w : VpnWorker) (id : Nat) : Bool := (w.key id).any SelectionKey.valid

/-- What `select` does to the registered keys: the cancelled ones are dropped. -/
def select (w : VpnWorker) : VpnWorker := { w with keys := w.keys.filter w.isValid }

/-- The `try` of `processVpn` for one selected key. The FIN that `exceptionRaised`
may send comes back through the calls of the decoder. -/
def processSelected (ready : Ready) (s : Session) : Except RuntimeException Session :=
  if !s.key.valid then .ok s else Session.handle none (s.processKey ready)

/-- `checkRegisteredKeys`, in the order in which the key set is iterated. -/
def checkRegisteredKeys (w : VpnWorker) (order : List (Nat × List Callback)) :
    Except RuntimeException VpnWorker :=
  machine.run (fun w entry => w.onKey (fun s => s.checkRegisteredKey none) entry.1 entry.2) w order

def processSelectedKeys (w : VpnWorker) (selected : List (Nat × Ready × List Callback)) :
    Except RuntimeException VpnWorker :=
  machine.run (fun w entry => w.onKey (processSelected entry.2.1) entry.1 entry.2.2) w selected

/-- One turn of the loop of `processVpn`: an input packet, or a `select` that finds
no key or some keys. -/
inductive Turn where
  | input (calls : List Callback)
  | idle (order : List (Nat × List Callback))
  | selected (selected : List (Nat × Ready × List Callback))
  deriving DecidableEq, Repr

/-- The selected keys are registered, each is there once, and its ready set lies
within its interest set. -/
def selectable (w : VpnWorker) (selected : List (Nat × Ready × List Callback)) : Bool :=
  (selected.map Prod.fst).Nodup && selected.all fun (id, ready, _) =>
    w.keys.contains id && (w.key id).any fun key => ready.within key.interestOps

def processVpn (w : VpnWorker) : Turn → Except RuntimeException VpnWorker
  | .input calls => w.callbacks calls
  | .idle order =>
    let w := w.select
    if (order.map Prod.fst).Perm w.keys then w.checkRegisteredKeys order else .ok w
  | .selected selected =>
    let w := w.select
    if w.selectable selected then w.processSelectedKeys selected else .ok w

def run (w : VpnWorker) (turns : List Turn) : Except RuntimeException VpnWorker :=
  machine.run processVpn w turns

end VpnWorker

end inspector.vpn
