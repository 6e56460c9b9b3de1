import Inspector.Vpn.TCPDispatcher

open nio

namespace inspector.vpn

/-- A session with its two buffers seen as byte queues. -/
structure View where
  sessionKey : TcpSessionKey
  toServer : List UInt8
  toApp : List UInt8
  clientSeq : BitVec 32
  serverSeq : BitVec 32
  toServerFin : Option TCPDispatcher.Fin
  toClientFin : Option TCPDispatcher.Fin
  reset : Bool
  key : SelectionKey
  connected : Bool
  log : List Event

def Session.view (s : Session) : View where
  sessionKey := s.tcp.sessionKey
  toServer := s.tcp.writeBuffer.toList
  toApp := s.tcp.readBuffer.toList
  clientSeq := s.tcp.clientSeq
  serverSeq := s.tcp.serverSeq
  toServerFin := s.tcp.toServerFin
  toClientFin := s.tcp.toClientFin
  reset := s.tcp.reset
  key := s.key
  connected := s.connected
  log := s.log

/-- A segment toward the app with the two counters of the dispatcher. -/
def View.segment (v : View) : TcpSegment :=
  { TcpPacketBuilder v.sessionKey.server v.sessionKey.client with
    seq := v.clientSeq, ack := v.serverSeq, isAck := true }

@[simp] theorem View.segment_seq (v : View) : v.segment.seq = v.clientSeq := rfl

@[simp] theorem View.segment_ack (v : View) : v.segment.ack = v.serverSeq := rfl

@[simp] theorem View.segment_data (v : View) : v.segment.data = [] := rfl

@[simp] theorem View.segment_isFin (v : View) : v.segment.isFin = false := rfl

/-- The single effects of a dispatcher, apart from remembering a FIN and from
closing the channel. Every method is a sequence of them. -/
inductive Effect : View → View → Prop where
  | accept (v : View) (data rest : List UInt8) (hvalid : v.key.valid) (hconnected : v.connected)
      (hqueue : v.toServer = data ++ rest) :
      Effect v { v with
        toServer := rest
        serverSeq := v.serverSeq + BitVec.ofNat 32 data.length
        log := v.log ++ [.wrote data] }
  | interest (v : View) (write : Bool) : Effect v { v with key.interestOps.write := write }
  | acknowledge (v : View) (hvalid : v.key.valid) (hconnected : v.connected) :
      Effect v { v with log := v.log ++ [.sent .processWritableKey v.segment true] }
  | receive (v : View) (data : List UInt8) (hvalid : v.key.valid) (hconnected : v.connected) :
      Effect v { v with toApp := v.toApp ++ data, log := v.log ++ [.read data] }
  | chunk (v : View) (data rest : List UInt8) (hvalid : v.key.valid) (hdata : data ≠ [])
      (hqueue : v.toApp = data ++ rest) :
      Effect v { v with
        toApp := rest
        clientSeq := v.clientSeq + BitVec.ofNat 32 data.length
        log := v.log ++ [.sent .dispatchReadBuffer { v.segment with isPsh := rest.isEmpty, data } true] }
  | connect (v : View) (hvalid : v.key.valid) (hinterest : v.key.interestOps.connect) :
      Effect v { v with
        connected := true
        clientSeq := v.clientSeq + 1
        serverSeq := v.serverSeq + 1
        key.interestOps := { read := true, write := false, connect := false }
        log := v.log ++
          [.sent .processConnectableKey { v.segment with ack := v.serverSeq + 1, isSyn := true } true] }
  | tx (v : View) (data : List UInt8) :
      Effect v { v with toServer := v.toServer ++ data, log := v.log ++ [.tx data] }
  | reset (v : View) : Effect v { v with reset := true }

/-- The acknowledgement of a remembered FIN. -/
def TCPDispatcher.Fin.ackSegment (fin : TCPDispatcher.Fin) : TcpSegment :=
  { TcpPacketBuilder fin.fin.destination fin.fin.source with
    seq := fin.fin.ack, ack := fin.fin.seq + 1, isAck := true }

@[simp] theorem TCPDispatcher.Fin.ackSegment_data (fin : TCPDispatcher.Fin) : fin.ackSegment.data = [] := rfl

/-- The effects of remembering a FIN and of closing the channel. -/
inductive Teardown : View → View → Prop where
  | toClientFin (v : View) (segment : TcpSegment) (time : BitVec 64) :
      Teardown v { v with toClientFin := some { fin := segment, forward := false, time } }
  | toServerFin (v : View) (segment : TcpSegment) (time : BitVec 64) :
      Teardown v { v with toServerFin := some { fin := segment, forward := true, time } }
  | ack (v : View) (fin : TCPDispatcher.Fin) (hfin : v.toServerFin = some fin ∨ v.toClientFin = some fin) :
      Teardown v { v with log := v.log ++ [.sent .finAck fin.ackSegment fin.forward] }
  | cancel (v : View) : Teardown v { v with key.valid := false }
  | fin (v : View) (hvalid : v.key.valid) (hfirst : v.toClientFin = none) :
      Teardown v { v with
        key.valid := false
        log := v.log ++ [.sent .exceptionRaised { v.segment with isFin := true } true] }
  | rst (v : View) (hvalid : v.key.valid) :
      Teardown v { v with
        key.valid := false
        log := v.log ++ [.sent .exceptionRaised { v.segment with isRst := true } true] }

end inspector.vpn
