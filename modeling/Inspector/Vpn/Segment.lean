import Mathlib.Data.List.Basic

namespace inspector.vpn

structure InetSocketAddress where
  host : BitVec 32
  port : BitVec 16
  deriving DecidableEq, Repr

inductive TcpDirection where
  | ToServer
  | ToClient
  deriving DecidableEq, Repr

structure TcpSessionKey where
  client : InetSocketAddress
  server : InetSocketAddress
  deriving DecidableEq, Repr

structure TcpSegment where
  source : InetSocketAddress
  destination : InetSocketAddress
  seq : BitVec 32
  ack : BitVec 32
  window : Nat
  isSyn : Bool
  isAck : Bool
  isFin : Bool
  isRst : Bool
  isPsh : Bool
  data : List UInt8
  deriving DecidableEq, Repr

/-- A fresh `TcpPacketBuilder`: only the addresses and the constant window are
set. The IPv4 identification it draws at random is not read by anything here. -/
def TcpPacketBuilder (src dest : InetSocketAddress) : TcpSegment where
  source := src
  destination := dest
  seq := 0
  ack := 0
  window := 0x7fff
  isSyn := false
  isAck := false
  isFin := false
  isRst := false
  isPsh := false
  data := []

/-- The statement of the source that builds and dispatches a segment. -/
inductive Site where
  | processConnectableKey
  | processWritableKey
  | dispatchReadBuffer
  | exceptionRaised
  | finAck
  deriving DecidableEq, Repr

/-- What can be observed of a dispatcher from outside: the bytes that cross the
remote channel, the bytes the decoder hands over, and the packets it dispatches.
Only packets dispatched with `forward` are written to the tunnel. -/
inductive Event where
  | read (data : List UInt8)
  | wrote (data : List UInt8)
  | tx (data : List UInt8)
  | sent (site : Site) (segment : TcpSegment) (forward : Bool)
  deriving DecidableEq, Repr

namespace Event

/-- The bytes an event takes from the remote channel. -/
@[simp] def readData : Event → List UInt8
  | read data => data
  | _ => []

/-- The bytes an event moves into the remote channel. -/
@[simp] def wroteData : Event → List UInt8
  | wrote data => data
  | _ => []

/-- The bytes an event hands to `handleTx`. -/
@[simp] def txData : Event → List UInt8
  | tx data => data
  | _ => []

/-- The payload an event sends to the app. -/
@[simp] def payload : Event → List UInt8
  | sent _ segment _ => segment.data
  | _ => []

/-- The sequence number of the SYN|ACK, when the event is that segment. -/
@[simp] def synAck : Event → Option (BitVec 32)
  | sent .processConnectableKey segment _ => some segment.seq
  | _ => none

/-- Whether the event is the dispatcher's own FIN. -/
@[simp] def ownFin : Event → Bool
  | sent .exceptionRaised segment _ => segment.isFin
  | _ => false

end Event

def readBytes (log : List Event) : List UInt8 := log.flatMap Event.readData

def wroteBytes (log : List Event) : List UInt8 := log.flatMap Event.wroteData

def txBytes (log : List Event) : List UInt8 := log.flatMap Event.txData

def payloadBytes (log : List Event) : List UInt8 := log.flatMap Event.payload

def synAckSeq (log : List Event) : Option (BitVec 32) := log.findSome? Event.synAck

def finSent (log : List Event) : Bool := log.any Event.ownFin

section Snoc

variable (log : List Event) (event : Event)

@[simp] theorem readBytes_snoc : readBytes (log ++ [event]) = readBytes log ++ event.readData := by
  simp [readBytes]

@[simp] theorem wroteBytes_snoc : wroteBytes (log ++ [event]) = wroteBytes log ++ event.wroteData := by
  simp [wroteBytes]

@[simp] theorem txBytes_snoc : txBytes (log ++ [event]) = txBytes log ++ event.txData := by
  simp [txBytes]

@[simp] theorem payloadBytes_snoc : payloadBytes (log ++ [event]) = payloadBytes log ++ event.payload := by
  simp [payloadBytes]

@[simp] theorem synAckSeq_snoc : synAckSeq (log ++ [event]) = (synAckSeq log).or event.synAck := by
  simp [synAckSeq, List.findSome?_append]

@[simp] theorem finSent_snoc : finSent (log ++ [event]) = (finSent log || event.ownFin) := by
  simp [finSent]

end Snoc

end inspector.vpn
