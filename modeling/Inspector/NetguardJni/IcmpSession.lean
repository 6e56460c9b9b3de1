import Inspector.Base.Overwrite
import Inspector.NetguardJni.Checksum
import Inspector.NetguardJni.UdpSession

namespace inspector.netguard.jni

/-- The two bytes of `icmp_id`, as they lie in the memory. -/
abbrev IcmpId := UInt8 × UInt8

/-- What a session has done so far. -/
inductive IcmpEvent where
  | send (message : List UInt8)
  | tun (message : List UInt8) (whole : Bool)
  | close
  deriving DecidableEq, Repr

/-- `struct icmp_session` with the socket of `struct ng_session`. -/
structure IcmpSession where
  addresses : Addresses
  time : Int
  id : IcmpId
  stop : Bool
  socket : Bool
  freed : Bool
  log : List IcmpEvent
  deriving DecidableEq, Repr

/-- How a 16-bit number lies in the memory. -/
def storeUInt16 (w : BitVec 16) : List UInt8 := [⟨w.extractLsb' 0 8⟩, ⟨w.extractLsb' 8 8⟩]

def storeUInt32 (w : BitVec 32) : List UInt8 := storeUInt16 (w.extractLsb' 0 16) ++ storeUInt16 (w.extractLsb' 16 16)

/-- `struct ip6_hdr_pseudo`. -/
def ip6_hdr_pseudo (src dst : BitVec 128) (len : List UInt8) (nxt : UInt8) : List UInt8 :=
  TcpSession.bytes128 src ++ TcpSession.bytes128 dst ++ len ++ [0, 0, 0, nxt]

namespace IcmpSession

def ICMP_TIMEOUT : Int := 15

def ICMP_ECHO : UInt8 := 8

def ICMP_MINLEN : Nat := 8

def ICMP4_MAXMSG : Nat := 65535 - 20 - 8

def ICMP6_MAXMSG : Nat := 65535 - 40 - 8

def IPPROTO_ICMPV6 : UInt8 := 58

section message

variable (message : List UInt8)

def icmp_id : IcmpId := (message.getD 4 0, message.getD 5 0)

def setId (id : IcmpId) : List UInt8 := message.overwrite 4 [id.1, id.2]

/-- The checksum is taken over the message with a zero in its place. -/
def setChecksum (start : BitVec 16) : List UInt8 :=
  let cleared := message.overwrite 2 [0, 0]
  cleared.overwrite 2 (storeUInt16 (~~~ calc_checksum start cleared))

/-- What `handle_icmp` makes of an echo request: the ID is complemented. -/
def request (addresses : Addresses) (plen : BitVec 16) (nxt : UInt8) : List UInt8 :=
  let start := match addresses with
    | .ip4 _ _ => 0
    | .ip6 saddr daddr => calc_checksum 0 (ip6_hdr_pseudo daddr saddr (TcpSession.bytes16 plen ++ [0, 0]) nxt)
  let id := icmp_id message
  setChecksum (setId message (~~~ id.1, ~~~ id.2)) start

end message

/-- Divisions cut toward zero. -/
def get_icmp_timeout (sessions maxsessions : Int) : Int :=
  let scale := 100 - (sessions * 100).tdiv maxsessions
  (ICMP_TIMEOUT * scale).tdiv 100

/-- A call of `check_icmp_session`. -/
structure Check where
  now : Int
  sessions : Int
  maxsessions : Int

/-- `check_icmp_session`. A session for which it returns 1 is freed. -/
def check_icmp_session (c : Check) (s : IcmpSession) : IcmpSession :=
  if s.stop ∨ s.time + get_icmp_timeout c.sessions c.maxsessions < c.now then
    { s with socket := false, freed := true, log := s.log ++ [.close] }
  else s

/-- A call of `check_icmp_socket`. -/
structure SocketEvent where
  now : Int
  error : Bool
  input : Bool
  recv : RecvResult
  tun : List UInt8 → Bool

section socket

variable (e : SocketEvent) (s : IcmpSession)

def maxmsg : Nat :=
  match s.addresses with
  | .ip4 _ _ => ICMP4_MAXMSG
  | .ip6 _ _ => ICMP6_MAXMSG

/-- What the app gets: the message with the ID of the session. -/
def reply (data : List UInt8) : List UInt8 :=
  let start := match s.addresses with
    | .ip4 _ _ => 0
    | .ip6 saddr daddr =>
      calc_checksum 0 (ip6_hdr_pseudo daddr saddr (storeUInt32 (BitVec.ofNat 32 data.length - 40)) IPPROTO_ICMPV6)
  setChecksum (setId data s.id) start

def receiveData (data : List UInt8) : IcmpSession :=
  let message := s.reply data
  let whole := e.tun message
  { s with
    stop := if whole then s.stop else true
    log := s.log ++ [.tun message whole] }

def check_icmp_socket : IcmpSession :=
  if e.error then { s with time := e.now, stop := true }
  else if e.input then
    let s := { s with time := e.now }
    match e.recv with
    | .again => s
    | .failed => { s with stop := true }
    | .bytes data =>
      let data := data.take s.maxmsg
      if data = [] then { s with stop := true } else s.receiveData e data
  else s

end socket

/-- The session that `handle_icmp` makes, once its socket is open. -/
def new (addresses : Addresses) (now : Int) (message : List UInt8) : IcmpSession where
  addresses
  time := now
  id := icmp_id message
  stop := false
  socket := true
  freed := false
  log := []

/-- `clear` for a session: an open socket is closed, and the session is freed. -/
def clear (s : IcmpSession) : IcmpSession :=
  if s.socket then { s with socket := false, freed := true, log := s.log ++ [.close] } else { s with freed := true }

/-- `handle_icmp` for a session. -/
def forward (now : Int) (result : SendtoResult) (request : List UInt8) (s : IcmpSession) : IcmpSession :=
  let s := { s with time := now }
  match result with
  | .sent => { s with log := s.log ++ [.send request] }
  | .again => s
  | .failed => { s with stop := true }

end IcmpSession

end inspector.netguard.jni
