import Inspector.NetguardJni.DnsResponse
import Inspector.NetguardJni.Segment
import Inspector.NetguardJni.TcpOptions
import Mathlib.Data.BitVec

namespace inspector.netguard.jni

/-- The states of `linux/tcp.h` that a session takes. -/
inductive TcpState where
  | LISTEN
  | SYN_RECV
  | ESTABLISHED
  | CLOSE_WAIT
  | FIN_WAIT1
  | LAST_ACK
  | CLOSING
  | CLOSE
  deriving DecidableEq, Repr

/-- How far the session with a SOCKS5 proxy is. An error sets it to zero. -/
inductive Socks5 where
  | zero
  | NONE
  | HELLO
  | AUTH
  | CONNECT
  | CONNECTED
  deriving DecidableEq, Repr

/-- The two addresses of a packet, of one version. -/
inductive Addresses where
  | ip4 (saddr daddr : BitVec 32)
  | ip6 (saddr daddr : BitVec 128)
  deriving DecidableEq, Repr

/-- What `handle_tcp` finds a session by. -/
structure SessionKey where
  addresses : Addresses
  source : BitVec 16
  dest : BitVec 16
  deriving DecidableEq, Repr

/-- A segment that `write_tcp` writes to the tun device. -/
structure TcpSegment where
  seq : BitVec 32
  ack_seq : BitVec 32
  window : BitVec 16
  syn : Bool
  ack : Bool
  fin : Bool
  rst : Bool
  data : List UInt8
  deriving DecidableEq, Repr

/-- Says whether `write` takes the whole packet. -/
abbrev Tun := TcpSegment → Bool

/-- What a session has done so far. -/
inductive TcpEvent where
  | tun (segment : TcpSegment) (whole : Bool)
  | send (data : List UInt8)
  | recv (data : List UInt8)
  | socks5 (data : List UInt8)
  | account_usage (sent received : BitVec 64)
  | close
  deriving DecidableEq, Repr

/-- The events a socket is monitored for, apart from errors. -/
structure EpollEvents where
  input : Bool
  output : Bool
  deriving DecidableEq, Repr

/-- `struct tcp_session` with the socket of `struct ng_session`. The socket is a flag:
it is open, or it is `-1`. -/
structure TcpSession where
  key : SessionKey
  time : Int
  mss : BitVec 16
  recv_scale : UInt8
  send_scale : UInt8
  recv_window : BitVec 32
  send_window : BitVec 32
  unconfirmed : BitVec 16
  remote_seq : BitVec 32
  local_seq : BitVec 32
  remote_start : BitVec 32
  local_start : BitVec 32
  acked : BitVec 32
  last_keep_alive : Int
  sent : BitVec 64
  received : BitVec 64
  state : TcpState
  socks5 : Socks5
  forward : List Segment
  socket : Bool
  ev : EpollEvents
  freed : Bool
  log : List TcpEvent
  deriving DecidableEq, Repr

/-- `SO_SNDBUF` and `SIOCOUTQ` of a socket, both of type `int`. -/
structure SendBuffer where
  sendbuf : Nat
  unsent : Nat
  sendbuf_lt : sendbuf < 2 ^ 31

/-- What `send` does: it takes some of the bytes, is to be called again, or fails. -/
inductive SendResult where
  | sent (count : Nat)
  | again
  | failed
  deriving DecidableEq, Repr

/-- What `recv` does. No bytes stand for the end of the stream. -/
inductive RecvResult where
  | bytes (data : List UInt8)
  | again
  | failed
  deriving DecidableEq, Repr

/-- A packet of the app. -/
structure TcpPacket where
  seq : BitVec 32
  ack_seq : BitVec 32
  window : BitVec 16
  syn : Bool
  ack : Bool
  psh : Bool
  fin : Bool
  rst : Bool
  urg : Bool
  data : List UInt8
  length_lt : data.length < 2 ^ 16

/-- The proxy that `jni_socks5` sets, and what DNS responses are treated with. -/
structure NativeConfig where
  proxy : Bool
  username : List UInt8
  password : List UInt8
  is_domain_blocked : List UInt8 → Bool
  rcode : BitVec 4
  name : List UInt8
  name_length : name.length = DNS_QNAME_MAX + 1

namespace TcpSession

def TCP_INIT_TIMEOUT : Int := 20

def TCP_IDLE_TIMEOUT : Int := 3600

def TCP_CLOSE_TIMEOUT : Int := 20

def TCP_KEEP_TIMEOUT : Int := 300

def EPOLL_MIN_CHECK : Int := 100

def SEND_BUF_DEFAULT : Nat := 163840

section write

variable (tun : Tun) (cur : TcpSession)

/-- The segment `write_tcp` builds. -/
def segment (data : List UInt8) (syn ack fin rst : Bool) : TcpSegment where
  seq := cur.local_seq
  ack_seq := if ack then cur.remote_seq else 0
  window := (cur.recv_window >>> cur.recv_scale.toNat).setWidth 16
  syn
  ack
  fin
  rst
  data

def write_tcp (data : List UInt8) (syn ack fin rst : Bool) : TcpSession × Bool :=
  let segment := cur.segment data syn ack fin rst
  ({ cur with log := cur.log ++ [.tun segment (tun segment)] }, tun segment)

/-- A segment that is not written in full closes the session. -/
def writeOrClose (data : List UInt8) (syn ack fin : Bool) : TcpSession × Bool :=
  let (next, whole) := cur.write_tcp tun data syn ack fin false
  if whole then (next, true) else ({ next with state := .CLOSING }, false)

def write_syn_ack : TcpSession × Bool := cur.writeOrClose tun [] true true false

def write_ack : TcpSession × Bool := cur.writeOrClose tun [] false true false

def write_data (data : List UInt8) : TcpSession × Bool := cur.writeOrClose tun data false true false

def write_fin_ack : TcpSession × Bool := cur.writeOrClose tun [] false true true

def write_rst : TcpSession :=
  let listens := cur.state = .LISTEN
  let cur := if listens then { cur with remote_seq := cur.remote_seq + 1 } else cur
  let cur := (cur.write_tcp tun [] false listens false true).1
  if cur.state ≠ .CLOSE then { cur with state := .CLOSING } else cur

end write

section windows

variable (cur : TcpSession)

def get_send_window : BitVec 32 :=
  let behind :=
    (if cur.acked ≤ cur.local_seq then cur.local_seq - cur.acked else 0x10000 + cur.local_seq - cur.acked) +
      BitVec.ofNat 32 ((cur.unconfirmed.toNat + 1) * 40)
  if behind < cur.send_window then cur.send_window - behind else 0

def get_receive_buffer (buffer : SendBuffer) : Nat :=
  let sendbuf := if buffer.sendbuf = 0 then SEND_BUF_DEFAULT else buffer.sendbuf
  if cur.socket = false then 0 else if buffer.unsent < sendbuf then sendbuf - buffer.unsent else 0

/-- The bytes queued and not yet sent. The length and the count are subtracted as `int`. -/
def toforward : BitVec 32 := (cur.forward.map fun s => BitVec.ofInt 32 ((s.data.length : Int) - s.sent)).sum

def get_receive_window (buffer : SendBuffer) : BitVec 32 :=
  let most := 0xFFFF#32 <<< cur.recv_scale.toNat
  let window := BitVec.ofNat 32 (cur.get_receive_buffer buffer)
  let window := if window > most then most else window
  if cur.toforward < window then window - cur.toforward else 0

end windows

/-- The idle time after which a session ends. Divisions cut toward zero. -/
def get_tcp_timeout (state : TcpState) (sessions maxsessions : Int) : Int :=
  let timeout :=
    match state with
    | .LISTEN | .SYN_RECV => TCP_INIT_TIMEOUT
    | .ESTABLISHED => TCP_IDLE_TIMEOUT
    | _ => TCP_CLOSE_TIMEOUT
  let scale := 100 - (sessions * 100).tdiv maxsessions
  (timeout * scale).tdiv 100

/-- A call of `check_tcp_session`, at two readings of the clock. -/
structure Check where
  now : Int
  later : Int
  sessions : Int
  maxsessions : Int
  tun : Tun

section check

variable (c : Check) (s : TcpSession)

def checkTimeout : TcpSession :=
  if s.state ≠ .CLOSING ∧ s.state ≠ .CLOSE ∧ s.time + get_tcp_timeout s.state c.sessions c.maxsessions < c.now then
    if s.state = .LISTEN then { s with state := .CLOSING } else s.write_rst c.tun
  else s

def closeSocket : TcpSession := { s with socket := false, log := s.log ++ [.close] }

def checkClosing : TcpSession :=
  if s.state = .CLOSING then
    let s := if s.socket then s.closeSocket else s
    { s with time := c.later, state := .CLOSE }
  else s

def checkUsage : TcpSession :=
  if (s.state = .CLOSING ∨ s.state = .CLOSE) ∧ (s.sent ≠ 0 ∨ s.received ≠ 0) then
    { s with sent := 0, received := 0, log := s.log ++ [.account_usage s.sent s.received] }
  else s

/-- `check_tcp_session`. A session for which it returns 1 is freed. -/
def check_tcp_session : TcpSession :=
  let s := ((s.checkTimeout c).checkClosing c).checkUsage
  if s.state = .CLOSE ∧ s.time + TCP_KEEP_TIMEOUT < c.now then { s with freed := true } else s

end check

/-- A call of `monitor_tcp_session`. -/
structure Monitor where
  ms : Int
  buffer : SendBuffer
  modified : Bool
  tun : Tun

section monitor

variable (m : Monitor) (s : TcpSession)

/-- The segment that asks the app for its window: the acknowledgement of one byte less. -/
def keepAlive : TcpSession :=
  if m.ms - s.last_keep_alive > EPOLL_MIN_CHECK then
    let s := ({ s with last_keep_alive := m.ms, remote_seq := s.remote_seq - 1 }.write_ack m.tun).1
    { s with remote_seq := s.remote_seq + 1 }
  else s

/-- The next segment can be sent: it begins where the stream goes on, and the buffer of
the socket has room for it. The size is compared as an unsigned number. -/
def forwardable (buffer_size : Nat) (segment : Segment) : Bool :=
  segment.seq = s.remote_seq && segment.sent ≤ segment.data.length && segment.data.length - segment.sent < buffer_size

def waitsForOutput : Bool :=
  match s.forward with
  | [] => false
  | first :: _ => s.forwardable (s.get_receive_buffer m.buffer) first

/-- The events of a session, as far as it got. -/
def monitorEvents : TcpSession × EpollEvents :=
  match s.state with
  | .LISTEN => (s, { input := s.socks5 ≠ .NONE, output := s.socks5 = .NONE })
  | .ESTABLISHED | .CLOSE_WAIT =>
    if s.get_send_window > 0 then (s, { input := true, output := s.waitsForOutput m })
    else
      let s := s.keepAlive m
      (s, { input := false, output := s.waitsForOutput m })
  | _ => (s, { input := false, output := false })

def monitor_tcp_session : TcpSession :=
  let (s, events) := s.monitorEvents m
  if events ≠ s.ev then
    let s := { s with ev := events }
    if m.modified then s else { s with state := .CLOSING }
  else s

end monitor

/-- A call of `check_tcp_socket`: the events, and what the calls to the kernel return. -/
structure SocketEvent where
  now : Int
  error : Bool
  input : Bool
  output : Bool
  before : SendBuffer
  after : SendBuffer
  sends : List SendResult
  recv : RecvResult
  socksSent : Bool
  tun : Tun

section connect

variable (config : NativeConfig) (e : SocketEvent) (s : TcpSession)

/-- What the answer of the proxy leads to. -/
def socks5Reply (bytes : List UInt8) : Socks5 :=
  let length := match s.key.addresses with
    | .ip4 _ _ => 6 + 4
    | .ip6 _ _ => 6 + 16
  if s.socks5 = .HELLO ∧ bytes.length = 2 ∧ bytes[0]? = some 5 then
    if bytes[1]? = some 0 then .CONNECT else if bytes[1]? = some 2 then .AUTH else .zero
  else if s.socks5 = .AUTH ∧ bytes.length = 2 ∧ (bytes[0]? = some 1 ∨ bytes[0]? = some 5) then
    if bytes[1]? = some 0 then .CONNECT else .zero
  else if s.socks5 = .CONNECT ∧ bytes.length = length ∧ bytes[0]? = some 5 then
    if bytes[1]? = some 0 then .CONNECTED else .zero
  else .zero

/-- What a session that waits for its connection does with the events. -/
def readConnect : TcpSession :=
  if s.socks5 = .NONE then
    if e.output then { s with socks5 := if config.proxy then .HELLO else .CONNECTED } else s
  else if e.input then
    match e.recv with
    | .bytes data =>
      let reply := s.socks5Reply (data.take 32)
      if reply = .zero then { s with socks5 := .zero }.write_rst e.tun else { s with socks5 := reply }
    | _ => s.write_rst e.tun
  else s

def bytes16 (w : BitVec 16) : List UInt8 := [⟨w.extractLsb' 8 8⟩, ⟨w.extractLsb' 0 8⟩]

def bytes32 (w : BitVec 32) : List UInt8 := bytes16 (w.extractLsb' 16 16) ++ bytes16 (w.extractLsb' 0 16)

def bytes128 (w : BitVec 128) : List UInt8 :=
  bytes32 (w.extractLsb' 96 32) ++ bytes32 (w.extractLsb' 64 32) ++ bytes32 (w.extractLsb' 32 32) ++
    bytes32 (w.extractLsb' 0 32)

/-- The request that is sent to the proxy. -/
def socks5Request : List UInt8 :=
  match s.socks5 with
  | .HELLO => [5, 2, 0, 2]
  | .AUTH =>
    [1, UInt8.ofNat config.username.length] ++ config.username ++ [UInt8.ofNat config.password.length] ++
      config.password
  | .CONNECT =>
    match s.key.addresses with
    | .ip4 _ daddr => [5, 1, 0, 1] ++ bytes32 daddr ++ bytes16 s.key.dest
    | .ip6 _ daddr => [5, 1, 0, 4] ++ bytes128 daddr ++ bytes16 s.key.dest
  | _ => []

/-- The connection stands: the SYN of the app is answered. -/
def establish : TcpSession :=
  let (s, whole) := { s with remote_seq := s.remote_seq + 1 }.write_syn_ack e.tun
  if whole then { s with time := e.now, local_seq := s.local_seq + 1, state := .SYN_RECV } else s

def sendConnect : TcpSession :=
  match s.socks5 with
  | .HELLO | .AUTH | .CONNECT =>
    let s := { s with log := s.log ++ [.socks5 (s.socks5Request config)] }
    if e.socksSent then s else s.write_rst e.tun
  | .CONNECTED => s.establish e
  | _ => s

end connect

section transfer

variable (e : SocketEvent) (s : TcpSession)

/-- `send` takes some bytes of the first segment. One that is sent in full leaves the
queue, and the stream goes on behind it. -/
def sendFirst (first : Segment) (rest : List Segment) (count : Nat) : TcpSession :=
  let sent := first.sent + count
  let complete := sent = first.data.length
  { s with
    sent := s.sent + BitVec.ofNat 64 count
    remote_seq := if complete then first.seq + BitVec.ofNat 32 sent else s.remote_seq
    forward := if complete then rest else { first with sent } :: rest
    log := s.log ++ [.send ((first.data.drop first.sent).take count)] }

/-- The loop that forwards data, over the results of `send`. Behind the last of them
`send` is to be called again. It says whether something was sent. -/
def forwardLoop (tun : Tun) : List SendResult → Nat → Bool → TcpSession → TcpSession × Bool
  | [], _, fwd, s => (s, fwd)
  | result :: results, buffer_size, fwd, s =>
    match s.forward with
    | [] => (s, fwd)
    | first :: rest =>
      if s.forwardable buffer_size first then
        match result with
        | .again => (s, fwd)
        | .failed => (s.write_rst tun, fwd)
        | .sent most =>
          let count := min most (first.data.length - first.sent)
          if first.sent + count = first.data.length then
            forwardLoop tun results (buffer_size - count) true (s.sendFirst first rest count)
          else (s.sendFirst first rest count, true)
      else (s, fwd)

/-- The acknowledgement of what was forwarded, with the new window. -/
def acknowledge (fwd : Bool) : TcpSession :=
  let prev := s.recv_window
  let s := { s with recv_window := s.get_receive_window e.after }
  if fwd ∨ prev = 0 ∧ s.recv_window > 0 then
    let s := if fwd ∧ s.forward = [] ∧ s.state = .CLOSE_WAIT then { s with remote_seq := s.remote_seq + 1 } else s
    let (s, whole) := s.write_ack e.tun
    if whole then { s with time := e.now } else s
  else s

/-- The end of the stream of the server. -/
def receiveEnd : TcpSession :=
  let s :=
    if s.forward = [] then
      let (s, whole) := s.write_fin_ack e.tun
      let s := if whole then { s with local_seq := s.local_seq + 1 } else s
      match s.state with
      | .ESTABLISHED => { s with state := .FIN_WAIT1 }
      | .CLOSE_WAIT => { s with state := .LAST_ACK }
      | _ => s
    else s.write_rst e.tun
  s.closeSocket

/-- The data that is passed on: a DNS response behind its length may be changed. -/
def passOn (config : NativeConfig) (data : List UInt8) : List UInt8 :=
  if s.key.dest = 53 ∧ 2 < data.length then
    match parse_dns_response (data.drop 2) config.is_domain_blocked config.rcode config.name with
    | .ok response => data.take 2 ++ response.data
    | .error _ => data
  else data

def receiveData (config : NativeConfig) (data : List UInt8) : TcpSession :=
  let s := { s with received := s.received + BitVec.ofNat 64 data.length, log := s.log ++ [TcpEvent.recv data] }
  let (s, whole) := s.write_data e.tun (s.passOn config data)
  if whole then
    { s with local_seq := s.local_seq + BitVec.ofNat 32 data.length, unconfirmed := s.unconfirmed + 1 }
  else s

def receive (config : NativeConfig) : TcpSession :=
  let send_window := s.get_send_window
  if e.input ∧ send_window > 0 then
    let s := { s with time := e.now }
    let buffer_size := if send_window > s.mss.setWidth 32 then s.mss.toNat else send_window.toNat
    match e.recv with
    | .again => s
    | .failed => s.write_rst e.tun
    | .bytes data =>
      if data.take buffer_size = [] then s.receiveEnd e else s.receiveData e config (data.take buffer_size)
  else s

def transfer (config : NativeConfig) : TcpSession :=
  let (s, fwd) := if e.output then forwardLoop e.tun e.sends (s.get_receive_buffer e.before) false s else (s, false)
  let s := s.acknowledge e fwd
  if s.state = .ESTABLISHED ∨ s.state = .CLOSE_WAIT then s.receive e config else s

/-- `check_tcp_socket`. -/
def check_tcp_socket (config : NativeConfig) : TcpSession :=
  if e.error then { s with time := e.now }.write_rst e.tun
  else if s.state = .LISTEN then (s.readConnect config e).sendConnect config e
  else s.transfer e config

end transfer

section handle

variable (tun : Tun) (now : Int) (p : TcpPacket) (cur : TcpSession)

/-- The packet updates the window of the app. -/
def arrive : TcpSession :=
  { cur with
    time := if p.syn then cur.time else now
    send_window := p.window.setWidth 32 <<< cur.send_scale.toNat
    unconfirmed := 0 }

def queue : TcpSession :=
  if p.data = [] then cur else { cur with forward := queue_tcp cur.remote_seq p.seq p.psh p.data cur.forward }

def handleFin : TcpSession :=
  match cur.state with
  | .ESTABLISHED =>
    if cur.forward = [] then
      let (cur, whole) := { cur with remote_seq := cur.remote_seq + 1 }.write_ack tun
      if whole then { cur with state := .CLOSE_WAIT } else cur
    else { cur with state := .CLOSE_WAIT }
  | .FIN_WAIT1 =>
    let (cur, whole) := { cur with remote_seq := cur.remote_seq + 1 }.write_ack tun
    if whole then { cur with state := .CLOSE } else cur
  | _ => cur

def handleAck : TcpSession :=
  let cur := { cur with acked := p.ack_seq }
  match cur.state with
  | .SYN_RECV => { cur with state := .ESTABLISHED }
  | .LAST_ACK => { cur with state := .CLOSING }
  | _ => cur

/-- A packet that acknowledges all that was written, or nothing. -/
def handleCurrent : TcpSession :=
  if p.syn then cur
  else if p.fin then cur.handleFin tun
  else if p.ack then cur.handleAck p
  else cur

/-- A packet that acknowledges something else. -/
def handleOther : TcpSession :=
  if p.ack_seq + 1 = cur.local_seq then cur
  else if compare_u32 p.ack_seq cur.local_seq < 0 then
    if compare_u32 p.ack_seq cur.acked ≤ 0 then cur else { cur with acked := p.ack_seq }
  else cur.write_rst tun

/-- `handle_tcp` for a packet of the session. -/
def handle_tcp : TcpSession :=
  if p.urg then cur
  else if cur.state = .CLOSING ∨ cur.state = .CLOSE then cur.write_rst tun
  else
    let cur := cur.arrive now p
    if p.data ≠ [] ∧ (cur.socket = false ∨ cur.state = .CLOSE_WAIT) then cur.write_rst tun
    else
      let cur := cur.queue p
      if p.rst then { cur with state := .CLOSING }
      else if p.ack = false ∨ p.ack_seq = cur.local_seq then cur.handleCurrent tun p
      else cur.handleOther tun p

end handle

/-- The session that `handle_tcp` makes for a SYN, once its socket is open. -/
def new (key : SessionKey) (p : TcpPacket) (options : TcpOptions) (now : Int) (rand : BitVec 32) (buffer : SendBuffer) :
    TcpSession :=
  let s : TcpSession := {
    key
    time := now
    mss := options.mss
    recv_scale := options.ws
    send_scale := options.ws
    recv_window := 0
    send_window := p.window.setWidth 32 <<< options.ws.toNat
    unconfirmed := 0
    remote_seq := p.seq
    local_seq := rand
    remote_start := p.seq
    local_start := rand
    acked := 0
    last_keep_alive := 0
    sent := 0
    received := 0
    state := .LISTEN
    socks5 := .NONE
    forward := if p.data = [] then [] else [{ seq := p.seq, sent := 0, psh := p.psh, data := p.data }]
    socket := true
    ev := { input := false, output := true }
    freed := false
    log := [] }
  { s with recv_window := s.get_receive_window buffer }

/-- `clear` for a session: an open socket is closed, and the session is freed with the
segments of its queue. Its usage is not told. -/
def clear (s : TcpSession) : TcpSession :=
  let s := if s.socket then s.closeSocket else s
  { s with forward := [], freed := true }

/-- What can happen to a session: its turn in a pass of `handle_events` or of
`check_allowed`, an event of its socket, and a packet of the app. -/
inductive Action where
  | monitor (m : Monitor)
  | check (c : Check)
  | disallow (tun : Tun)
  | socket (e : SocketEvent)
  | packet (tun : Tun) (now : Int) (p : TcpPacket)

/-- A session that is freed, or a socket that is closed, takes part in nothing. -/
inductive Gone where
  | session
  | socket
  deriving DecidableEq, Repr

def step (config : NativeConfig) (s : TcpSession) : Action → Except Gone TcpSession
  | .monitor m =>
    if s.freed then .error .session else if s.socket then .ok (s.monitor_tcp_session m) else .error .socket
  | .check c => if s.freed then .error .session else .ok (s.check_tcp_session c)
  | .disallow tun =>
    if s.freed then .error .session
    else .ok (if s.state ≠ .CLOSING ∧ s.state ≠ .CLOSE then s.write_rst tun else s)
  | .socket e =>
    if s.freed then .error .session else if s.socket then .ok (s.check_tcp_socket e config) else .error .socket
  | .packet tun now p => if s.freed then .error .session else .ok (s.handle_tcp tun now p)

end TcpSession

end inspector.netguard.jni
