import Inspector.NetguardJni.TcpSession

open bounded

namespace inspector.netguard.jni

inductive UdpState where
  | ACTIVE
  | FINISHING
  | CLOSED
  | BLOCKED
  deriving DecidableEq, Repr

/-- Where `is_address_allowed` redirects a packet to. -/
inductive Redirect where
  | ip4 (raddr : BitVec 32) (rport : BitVec 16)
  | ip6 (raddr : BitVec 128) (rport : BitVec 16)
  deriving DecidableEq, Repr

/-- What a session has done so far. A datagram is sent to the redirection, or else to the
destination of the session. -/
inductive UdpEvent where
  | send (redirect : Option Redirect) (data : List UInt8)
  | recv (data : List UInt8)
  | tun (data : List UInt8) (whole : Bool)
  | account_usage (sent received : BitVec 64)
  | close
  deriving DecidableEq, Repr

/-- `struct udp_session` with the socket of `struct ng_session`. -/
structure UdpSession where
  key : SessionKey
  time : Int
  mss : BitVec 16
  sent : BitVec 64
  received : BitVec 64
  state : UdpState
  socket : Bool
  freed : Bool
  log : List UdpEvent
  deriving DecidableEq, Repr

/-- What `sendto` does with a datagram: it takes it, is to be called again, or fails. -/
inductive SendtoResult where
  | sent
  | again
  | failed
  deriving DecidableEq, Repr

namespace UdpSession

def UDP_TIMEOUT_53 : Int := 15

def UDP_TIMEOUT_ANY : Int := 300

def UDP_KEEP_TIMEOUT : Int := 60

def UDP_YIELD : Nat := 10

def UDP4_MAXMSG : BitVec 16 := 65535 - 20 - 8

def UDP6_MAXMSG : BitVec 16 := 65535 - 40 - 8

/-- Divisions cut toward zero. -/
def get_udp_timeout (dest : BitVec 16) (sessions maxsessions : Int) : Int :=
  let timeout := if dest = 53 then UDP_TIMEOUT_53 else UDP_TIMEOUT_ANY
  let scale := 100 - (sessions * 100).tdiv maxsessions
  (timeout * scale).tdiv 100

/-- A call of `check_udp_session`, at two readings of the clock. -/
structure Check where
  now : Int
  later : Int
  sessions : Int
  maxsessions : Int

section check

variable (c : Check) (s : UdpSession)

def checkTimeout : UdpSession :=
  if s.state = .ACTIVE ∧ s.time + get_udp_timeout s.key.dest c.sessions c.maxsessions < c.now then
    { s with state := .FINISHING }
  else s

def checkFinishing : UdpSession :=
  if s.state = .FINISHING then
    { s with socket := false, time := c.later, state := .CLOSED, log := s.log ++ [.close] }
  else s

def checkUsage : UdpSession :=
  if s.state = .CLOSED ∧ (s.sent ≠ 0 ∨ s.received ≠ 0) then
    { s with sent := 0, received := 0, log := s.log ++ [.account_usage s.sent s.received] }
  else s

/-- `check_udp_session`. A session for which it returns 1 is freed. -/
def check_udp_session : UdpSession :=
  let s := ((s.checkTimeout c).checkFinishing c).checkUsage
  if (s.state = .CLOSED ∨ s.state = .BLOCKED) ∧ s.time + UDP_KEEP_TIMEOUT < c.now then { s with freed := true } else s

end check

/-- What a call of `check_udp_socket` meets when it reads. -/
structure Read where
  now : Int
  recv : RecvResult
  tun : List UInt8 → Bool

section socket

variable (config : NativeConfig) (r : Read) (s : UdpSession)

/-- The datagram that is passed on: a DNS response may be changed and cut. -/
def passOn (data : List UInt8) : List UInt8 :=
  if s.key.dest = 53 then
    match parse_dns_response data config.is_domain_blocked config.rcode config.name with
    | .ok response => response.data.take response.datalen
    | .error _ => data
  else data

/-- A datagram that comes in. A session for DNS ends with it. -/
def receiveData (data : List UInt8) : UdpSession :=
  let passed := s.passOn config data
  let whole := r.tun passed
  { s with
    received := s.received + BitVec.ofNat 64 data.length
    state := if whole = false ∨ s.key.dest = 53 then .FINISHING else s.state
    log := s.log ++ [.recv data, .tun passed whole] }

/-- `check_udp_socket`, for the events of the socket. -/
def check_udp_socket (error input : Bool) : UdpSession :=
  if error then { s with time := r.now, state := .FINISHING }
  else if input then
    let s := { s with time := r.now }
    match r.recv with
    | .again => s
    | .failed => { s with state := .FINISHING }
    | .bytes data =>
      let data := data.take s.mss.toNat
      if data = [] then { s with state := .FINISHING } else s.receiveData config r data
  else s

/-- The loop of `handle_events` that reads a socket. -/
def readSocket (error input : Bool) (reads : List Read) : UdpSession :=
  if error = false ∧ input = true then
    (reads.take UDP_YIELD).foldl (fun s r => s.check_udp_socket config r error input) s
  else s

end socket

/-- The session that `handle_udp` makes, once its socket is open. -/
def new (key : SessionKey) (now : Int) (redirect : Option Redirect) : UdpSession where
  key
  time := now
  mss := match redirect, key.addresses with
    | some (.ip4 _ _), _ | none, .ip4 _ _ => UDP4_MAXMSG
    | some (.ip6 _ _), _ | none, .ip6 _ _ => UDP6_MAXMSG
  sent := 0
  received := 0
  state := .ACTIVE
  socket := true
  freed := false
  log := []

/-- The session that `block_udp` makes. Three fields keep what the memory held. -/
def blocked (key : SessionKey) (now : Int) (mss : BitVec 16) (sent received : BitVec 64) : UdpSession where
  key
  time := now
  mss
  sent
  received
  state := .BLOCKED
  socket := false
  freed := false
  log := []

/-- `clear` for a session: an open socket is closed, and the session is freed. Its usage
is not told. -/
def clear (s : UdpSession) : UdpSession :=
  if s.socket then { s with socket := false, freed := true, log := s.log ++ [.close] } else { s with freed := true }

/-- `handle_udp` behind the check for DHCP. -/
def forward (now : Int) (redirect : Option Redirect) (result : SendtoResult) (data : List UInt8) (s : UdpSession) :
    UdpSession :=
  let s := { s with time := now }
  match result with
  | .sent => { s with sent := s.sent + BitVec.ofNat 64 data.length, log := s.log ++ [.send redirect data] }
  | .again => s
  | .failed => { s with state := .FINISHING }

end UdpSession

end inspector.netguard.jni
