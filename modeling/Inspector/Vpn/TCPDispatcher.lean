import Inspector.Base.ByteBuffer
import Inspector.Base.Machine
import Inspector.Vpn.Segment

open nio

namespace inspector.vpn

/-- The operation set of a selection key. A TCP channel is never acceptable. -/
structure Ops where
  read : Bool
  write : Bool
  connect : Bool
  deriving DecidableEq, Repr

structure SelectionKey where
  valid : Bool
  interestOps : Ops
  deriving DecidableEq, Repr

/-- The checked exceptions a dispatcher method throws. `exceptionRaised` only
asks whether one is an `EOFException`. -/
inductive IOException where
  | eof
  | other
  deriving DecidableEq, Repr

/-- The unchecked exceptions. Nothing in the event loop catches them: one of
them ends the worker thread. -/
inductive RuntimeException where
  | BufferUnderflowException
  | BufferOverflowException
  | NotYetConnectedException
  | CancelledKeyException
  | UnsupportedOperationException
  deriving DecidableEq, Repr

namespace TCPDispatcher

/-- A remembered FIN, with the `System.nanoTime` of its arrival. -/
structure Fin where
  fin : TcpSegment
  forward : Bool
  time : BitVec 64
  deriving DecidableEq, Repr

/-- The difference of the two times, cut to an `int`. -/
def Fin.compareTo (self another : Fin) : BitVec 32 := (self.time - another.time).setWidth 32

/-- `Arrays.sort` of the two FINs: the second moves to the front only when it
compares below the first. -/
def Fin.sort (first second : Fin) : List Fin :=
  if (second.compareTo first).slt 0 then [second, first] else [first, second]

end TCPDispatcher

structure TCPDispatcher where
  sessionKey : TcpSessionKey
  writeBuffer : ByteBuffer UInt8
  readBuffer : ByteBuffer UInt8
  clientSeq : BitVec 32
  serverSeq : BitVec 32
  toServerFin : Option TCPDispatcher.Fin
  toClientFin : Option TCPDispatcher.Fin
  reset : Bool

/-- A dispatcher with the key and the channel it is attached to, and the log of
everything it has done so far. -/
structure Session where
  tcp : TCPDispatcher
  key : SelectionKey
  connected : Bool
  log : List Event

def BUFFER_SIZE : Nat := 0xffff

/-- The dispatcher `onEstablish` makes and registers for `OP_CONNECT`. The
initial sequence number is drawn at random. -/
def Session.new (sessionKey : TcpSessionKey) (sync : TcpSegment) (identify : BitVec 32) : Session where
  tcp := {
    sessionKey
    writeBuffer := (ByteBuffer.allocate BUFFER_SIZE 0).exhausted
    readBuffer := (ByteBuffer.allocate BUFFER_SIZE 0).exhausted
    clientSeq := identify
    serverSeq := sync.seq
    toServerFin := none
    toClientFin := none
    reset := false }
  key := { valid := true, interestOps := { read := false, write := false, connect := true } }
  connected := false
  log := []

/-- The end of a method call: it returns, it throws a checked exception that
`processVpn` hands to `exceptionRaised`, or it throws an unchecked one. -/
inductive Outcome where
  | returns (s : Session)
  | throwsChecked (e : IOException) (s : Session)
  | throws (e : RuntimeException)

/-- What `channel.finishConnect` does. -/
inductive ConnectResult where
  | finished
  | pending
  | refused
  deriving DecidableEq, Repr

/-- What `channel.write` does: it accepts some of the remaining bytes, returns
`-1`, or fails. -/
inductive WriteResult where
  | accepted (count : Nat)
  | eof
  | failed
  deriving DecidableEq, Repr

/-- What `channel.read` does: it offers bytes, returns `-1`, or fails. -/
inductive ReadResult where
  | offered (data : List UInt8)
  | eof
  | failed
  deriving DecidableEq, Repr

/-- What the decoder makes of the dispatcher's own FIN, which `dispatch` feeds
back to it: `postProcess` calls `handleFin` with the direction it finds, or finds
no session or no socket and calls nothing. -/
abbrev Feedback := Option (TcpDirection × BitVec 64)

namespace Session

def buildTcp (s : Session) : TcpSegment :=
  TcpPacketBuilder s.tcp.sessionKey.server s.tcp.sessionKey.client

/-- `TcpPacketBuilder.dispatch` down to `VpnProcessor.dispatch`. -/
def dispatch (s : Session) (site : Site) (segment : TcpSegment) (forward : Bool) : Session :=
  { s with log := s.log ++ [.sent site segment forward] }

/-- `channel.write(writeBuffer)` accepts some bytes and `serverSeq` moves past them. -/
def acceptWrite (s : Session) (count : Nat) : Session :=
  let (write, rest) := s.tcp.writeBuffer.get count
  { s with
    tcp.writeBuffer := rest
    tcp.serverSeq := s.tcp.serverSeq + BitVec.ofNat 32 write.length
    log := s.log ++ [Event.wrote write] }

def setWriteInterest (s : Session) (write : Bool) : Session := { s with key.interestOps.write := write }

def processWritableKey (s : Session) (result : WriteResult) : Outcome :=
  if !s.connected then .throws .NotYetConnectedException
  else match result with
    | .failed => .throwsChecked .other s
    | .eof => .throwsChecked .eof s
    | .accepted count =>
      let s := s.acceptWrite count
      if s.tcp.writeBuffer.hasRemaining then
        .returns (s.setWriteInterest true)
      else
        let s := s.setWriteInterest false
        .returns (s.dispatch .processWritableKey
          { s.buildTcp with seq := s.tcp.clientSeq, ack := s.tcp.serverSeq, isAck := true } true)

/-- The body of the loop of `dispatchReadBuffer`. -/
def dispatchChunk (s : Session) : Session :=
  let mtu := if s.tcp.readBuffer.remaining ≥ 0x2000 then 0x2000 else s.tcp.readBuffer.remaining
  let (data, rest) := s.tcp.readBuffer.get mtu
  let s := { s with tcp.readBuffer := rest }
  let s := s.dispatch .dispatchReadBuffer
    { s.buildTcp with
      seq := s.tcp.clientSeq
      ack := s.tcp.serverSeq
      isAck := true
      isPsh := !s.tcp.readBuffer.hasRemaining
      data } true
  { s with tcp.clientSeq := s.tcp.clientSeq + BitVec.ofNat 32 data.length }

/-- The length of the chunk the loop body takes from the buffer. -/
def chunkLength (s : Session) : Nat := min 0x2000 s.tcp.readBuffer.remaining

def dispatchLoop (s : Session) (window : Nat) : Session :=
  if window ≥ 0x2000 ∧ s.tcp.readBuffer.hasRemaining then
    dispatchLoop s.dispatchChunk (window - s.chunkLength)
  else s
termination_by window
decreasing_by
  rename_i hloop
  obtain ⟨hwindow, hremaining⟩ := hloop
  simp only [ByteBuffer.hasRemaining, decide_eq_true_eq] at hremaining
  simp only [chunkLength, ByteBuffer.remaining]
  omega

def dispatchReadBuffer (s : Session) : Session := s.dispatchLoop 0x7FFF

/-- `readBuffer.compact()` and `readBuffer.flip()` with nothing read in between. -/
def compactRead (s : Session) : Session := { s with tcp.readBuffer := s.tcp.readBuffer.compact.flip }

/-- `channel.read(readBuffer)` between `readBuffer.compact()` and `readBuffer.flip()`. -/
def storeRead (s : Session) (data : List UInt8) : Session :=
  { s with
    tcp.readBuffer := (s.tcp.readBuffer.compact.fill data).flip
    log := s.log ++ [Event.read (data.take s.tcp.readBuffer.compact.remaining)] }

def processReadableKey (s : Session) (result : ReadResult) : Outcome :=
  if !s.tcp.readBuffer.compact.hasRemaining then .throws .BufferUnderflowException
  else if !s.connected then .throws .NotYetConnectedException
  else match result with
    | .failed => .throwsChecked .other s.compactRead
    | .eof => .throwsChecked .eof s.compactRead
    | .offered data => .returns (s.storeRead data).dispatchReadBuffer

/-- The branch of `processConnectableKey` in which `channel.finishConnect()` is true. -/
def finishConnect (s : Session) : Session :=
  let segment := { s.buildTcp with
    seq := s.tcp.clientSeq
    ack := s.tcp.serverSeq + 1
    isSyn := true
    isAck := true }
  let s := { s with
    connected := true
    tcp.clientSeq := s.tcp.clientSeq + 1
    tcp.serverSeq := s.tcp.serverSeq + 1 }
  let s := s.dispatch .processConnectableKey segment true
  { s with key.interestOps := { read := true, write := false, connect := false } }

def processConnectableKey (s : Session) (result : ConnectResult) : Outcome :=
  match result with
  | .finished =>
    .returns s.finishConnect
  | .pending => .throwsChecked .other s
  | .refused => .throwsChecked .other s

def handleTx (s : Session) (data : List UInt8) : Except RuntimeException Session :=
  match s.tcp.writeBuffer.compact.put data with
  | none => .error .BufferOverflowException
  | some writeBuffer => .ok { s with tcp.writeBuffer := writeBuffer.flip, log := s.log ++ [.tx data] }

/-- `Fin.ack`: the acknowledgement is built from the remembered segment alone. -/
def ackFin (s : Session) (fin : TCPDispatcher.Fin) : Session :=
  s.dispatch .finAck
    { TcpPacketBuilder fin.fin.destination fin.fin.source with
      seq := fin.fin.ack
      ack := fin.fin.seq + 1
      isAck := true } fin.forward

/-- The first half of `handleFin`: the FIN is remembered for its direction. -/
def rememberFin (s : Session) (segment : TcpSegment) (direction : TcpDirection) (time : BitVec 64) : Session :=
  match direction with
  | .ToClient => { s with tcp.toClientFin := some { fin := segment, forward := false, time } }
  | .ToServer => { s with tcp.toServerFin := some { fin := segment, forward := true, time } }

def handleFin (s : Session) (segment : TcpSegment) (direction : TcpDirection) (time : BitVec 64) :
    Session × Bool :=
  let s := s.rememberFin segment direction time
  match s.tcp.toServerFin, s.tcp.toClientFin with
  | some toServerFin, some toClientFin =>
    ((TCPDispatcher.Fin.sort toServerFin toClientFin).foldl ackFin s, true)
  | _, _ => (s, false)

/-- `key.cancel()` and `IOUtils.closeQuietly(key.channel())`: both leave the key invalid. -/
def closeKey (s : Session) : Session := { s with key.valid := false }

def finSegment (s : Session) : TcpSegment :=
  { s.buildTcp with seq := s.tcp.clientSeq, ack := s.tcp.serverSeq, isFin := true, isAck := true }

def rstSegment (s : Session) : TcpSegment :=
  { s.buildTcp with seq := s.tcp.clientSeq, ack := s.tcp.serverSeq, isRst := true, isAck := true }

/-- `VpnProcessor.dispatch` feeds the packet to the decoder after writing it, so
the FIN re-enters the dispatcher through `postProcess`. -/
def reenter (s : Session) (fin : TcpSegment) : Feedback → Session
  | some (direction, time) => (s.handleFin fin direction time).1
  | none => s

def exceptionRaised (s : Session) (e : IOException) (feedback : Feedback) : Session :=
  let s := s.closeKey
  match e with
  | .eof =>
    if s.tcp.toClientFin.isNone then
      (s.dispatch .exceptionRaised s.finSegment true).reenter s.finSegment feedback
    else s
  | .other => s.dispatch .exceptionRaised s.rstSegment true

def checkRegisteredKey (s : Session) (feedback : Feedback) : Except RuntimeException Session :=
  if s.tcp.reset then .ok (s.exceptionRaised .other feedback)
  else
    let s := if s.tcp.readBuffer.hasRemaining then s.dispatchReadBuffer else s
    if s.tcp.writeBuffer.hasRemaining then
      if s.key.valid then .ok (s.setWriteInterest true)
      else .error .CancelledKeyException
    else if s.tcp.toServerFin.isSome then .ok (s.exceptionRaised .eof feedback)
    else .ok s

def onReset (s : Session) : Session := { s with tcp.reset := true }

/-- The `try` of `processVpn` around `processKey`. -/
def handle (feedback : Feedback) : Outcome → Except RuntimeException Session
  | .returns s => .ok s
  | .throwsChecked e s => .ok (s.exceptionRaised e feedback)
  | .throws e => .error e

/-- One thing that happens to a dispatcher. -/
inductive Step where
  | connectable (result : ConnectResult) (feedback : Feedback)
  | writable (result : WriteResult) (feedback : Feedback)
  | readable (result : ReadResult) (feedback : Feedback)
  | idle (feedback : Feedback)
  | handleTx (data : List UInt8)
  | handleFin (segment : TcpSegment) (direction : TcpDirection) (time : BitVec 64)
  | onReset
  deriving DecidableEq, Repr

/-- The event loop asks for the ready set of a valid key only, and a selector
puts no operation into it that the interest set lacks. A key it does not select
keeps its dispatcher as it is. -/
def step (s : Session) : Step → Except RuntimeException Session
  | .connectable result feedback =>
    if s.key.valid && s.key.interestOps.connect then handle feedback (s.processConnectableKey result) else .ok s
  | .writable result feedback =>
    if s.key.valid && s.key.interestOps.write then handle feedback (s.processWritableKey result) else .ok s
  | .readable result feedback =>
    if s.key.valid && s.key.interestOps.read then handle feedback (s.processReadableKey result) else .ok s
  | .idle feedback => if s.key.valid then s.checkRegisteredKey feedback else .ok s
  | .handleTx data => s.handleTx data
  | .handleFin segment direction time => .ok (s.handleFin segment direction time).1
  | .onReset => .ok s.onReset

/-- Runs of a dispatcher, in any order and number of steps. -/
def run (s : Session) (steps : List Step) : Except RuntimeException Session := machine.run step s steps

end Session

end inspector.vpn
