import Inspector.Base.FirstMatch
import Inspector.Base.Machine
import Inspector.NetguardJni.Dhcp
import Inspector.NetguardJni.IcmpSession

open bounded machine

namespace inspector.netguard.jni

/-- `struct ng_session`. -/
inductive NgSession where
  | icmp (s : IcmpSession)
  | udp (s : UdpSession)
  | tcp (s : TcpSession)
  deriving DecidableEq, Repr

/-- The part of a packet behind the IP header. -/
inductive Payload where
  | icmp (plen : BitVec 16) (protocol : UInt8) (message : List UInt8)
  | udp (source dest : BitVec 16) (data : List UInt8)
  | tcp (source dest : BitVec 16) (p : TcpPacket) (options : OptionBytes) (tcpoptlen : Nat)
  | other

/-- A packet that `handle_ip` has parsed. -/
structure IpPacket where
  addresses : Addresses
  payload : Payload

/-- A packet of TCP that came in, with the bytes of its options. -/
structure TcpArrival where
  key : SessionKey
  packet : TcpPacket
  options : OptionBytes
  tcpoptlen : Nat

/-- What `handle_ip` meets for a packet: the clock, the uid, the answer of
`is_address_allowed`, and what the calls to the kernel return. -/
structure Reception where
  now : Int
  uid : Int
  verdict : Option (Option Redirect)
  opens : Bool
  rand : BitVec 32
  buffer : SendBuffer
  passes : Nat
  sendto : SendtoResult
  tun : Tun
  datagrams : List UInt8 → Bool
  memory : BitVec 16 × BitVec 64 × BitVec 64

/-- The arguments of the thread. -/
structure Arguments where
  config : NativeConfig
  fwd53 : Bool
  maxsessions : Nat

/-- An access outside of an array, or a loop that does not end. -/
inductive Crash where
  | fault (f : Fault)
  | endless
  deriving DecidableEq, Repr

/-- `struct context`. What follows the list and the time of the last check is a record:
the sessions that were freed, those that were cleared, the packets that came in, and the
segments of no session. -/
structure Context where
  ng_session : List NgSession
  last_check : Int
  deleted : List NgSession
  cleared : List NgSession
  received : List TcpArrival
  unknown : List (SessionKey × TcpSegment)

namespace NgSession

/-- The sessions that `handle_events` counts. -/
def active : NgSession → Bool
  | .icmp s => !s.stop
  | .udp s => s.state = .ACTIVE
  | .tcp s => s.state ≠ .CLOSING && s.state ≠ .CLOSE

def freed : NgSession → Bool
  | .icmp s => s.freed
  | .udp s => s.freed
  | .tcp s => s.freed

/-- The comparison of the three searches. -/
def isIcmp (addresses : Addresses) : NgSession → Bool
  | .icmp s => !s.stop && s.addresses = addresses
  | _ => false

def isUdp (key : SessionKey) : NgSession → Bool
  | .udp s => s.key = key
  | _ => false

def isTcp (key : SessionKey) : NgSession → Bool
  | .tcp s => s.key = key
  | _ => false

/-- Changes a session of TCP. -/
def mapTcp (f : TcpSession → TcpSession) : NgSession → NgSession
  | .tcp s => .tcp (f s)
  | s => s

def mapIcmp (f : IcmpSession → IcmpSession) : NgSession → NgSession
  | .icmp s => .icmp (f s)
  | s => s

def clear : NgSession → NgSession
  | .icmp s => .icmp s.clear
  | .udp s => .udp s.clear
  | .tcp s => .tcp s.clear

end NgSession

/-- What the check of a session meets. -/
structure Clock where
  now : Int
  later : Int
  tun : Tun

/-- What a socket is ready for, and what the calls for it return. -/
inductive Ready where
  | icmp (e : IcmpSession.SocketEvent)
  | udp (error input : Bool) (reads : List UdpSession.Read)
  | tcp (e : TcpSession.SocketEvent)

/-- A pass of the loop of `handle_events`. The tun device is ready at most once, before
and after some of the sockets. -/
structure Pass where
  monitors : Nat → TcpSession.Monitor
  ms : Int
  clocks : Nat → Clock
  before : List (Nat × Ready)
  packets : List (Reception × IpPacket)
  after : List (Nat × Ready)

namespace UdpSession

/-- `handle_udp` for a session. -/
def handle_udp (r : Reception) (redirect : Option Redirect) (data : List UInt8) (s : UdpSession) :
    Except Fault UdpSession :=
  if s.key.source = 68 ∨ s.key.dest = 67 then
    match s.check_dhcp r.datagrams data with
    | .error f => .error f
    | .ok (u, true) => .ok u
    | .ok (u, false) => .ok (u.forward r.now redirect r.sendto data)
  else .ok (s.forward r.now redirect r.sendto data)

end UdpSession

namespace Context

def EPOLL_MIN_CHECK : Int := 100

def TUN_YIELD : Nat := 10

def initial : Context where
  ng_session := []
  last_check := 0
  deleted := []
  cleared := []
  received := []
  unknown := []

variable (ctx : Context)

def add (s : NgSession) : Context := { ctx with ng_session := s :: ctx.ng_session }

section handle

variable (a : Arguments) (sessions : Nat) (r : Reception)

def handle_icmp (addresses : Addresses) (plen : BitVec 16) (protocol : UInt8) (message : List UInt8) : Context :=
  if message.getD 0 0 ≠ IcmpSession.ICMP_ECHO then ctx
  else
    let forward := IcmpSession.forward r.now r.sendto (IcmpSession.request message addresses plen protocol)
    if ctx.ng_session.any (NgSession.isIcmp addresses) then
      { ctx with ng_session := ctx.ng_session.modifyFirst (NgSession.isIcmp addresses) (NgSession.mapIcmp forward) }
    else if r.opens then ctx.add (.icmp (forward (IcmpSession.new addresses r.now message)))
    else ctx

/-- A query is never asked for, unless queries are forwarded. -/
def has_udp_session (key : SessionKey) : Bool :=
  key.dest = 53 && !a.fwd53 || ctx.ng_session.any (NgSession.isUdp key)

def block_udp (key : SessionKey) : Context :=
  ctx.add (.udp (UdpSession.blocked key r.now r.memory.1 r.memory.2.1 r.memory.2.2))

def handle_udp (redirect : Option Redirect) (key : SessionKey) (data : List UInt8) : Except Crash Context :=
  match ctx.ng_session.find? (NgSession.isUdp key) with
  | some (.udp s) =>
    if s.state ≠ .ACTIVE then .ok ctx
    else
      match s.handle_udp r redirect data with
      | .error f => .error (.fault f)
      | .ok u => .ok { ctx with ng_session := ctx.ng_session.modifyFirst (NgSession.isUdp key) fun _ => .udp u }
  | _ =>
    if r.opens then
      match (UdpSession.new key r.now redirect).handle_udp r redirect data with
      | .error f => .error (.fault f)
      | .ok u => .ok (ctx.add (.udp u))
    else .ok ctx

def get_default_mss : Addresses → BitVec 16
  | .ip4 _ _ => 10000 - 20 - 20
  | .ip6 _ _ => 10000 - 40 - 20

/-- The segment for a packet of no session. -/
def unknownReset (p : TcpPacket) : TcpSegment where
  seq := p.ack_seq
  ack_seq := 0
  window := 0
  syn := false
  ack := false
  fin := false
  rst := true
  data := []

def handle_tcp (key : SessionKey) (p : TcpPacket) (options : OptionBytes) (tcpoptlen : Nat) : Except Crash Context :=
  if ctx.ng_session.any (NgSession.isTcp key) then
    .ok { ctx with
      ng_session :=
        ctx.ng_session.modifyFirst (NgSession.isTcp key) (NgSession.mapTcp (TcpSession.handle_tcp r.tun r.now p)) }
  else if p.urg then .ok ctx
  else if p.syn then
    match TcpOptions.loop options r.passes tcpoptlen 0 { mss := get_default_mss key.addresses, ws := 0 } with
    | none => .error .endless
    | some options =>
      if r.opens then .ok (ctx.add (.tcp (TcpSession.new key p options r.now r.rand r.buffer))) else .ok ctx
  else .ok { ctx with unknown := ctx.unknown ++ [(key, unknownReset p)] }

/-- The packets for which a session may be made. -/
def mayOpen (p : IpPacket) : Bool :=
  match p.payload with
  | .icmp _ _ _ => true
  | .udp source dest _ => !ctx.has_udp_session a ⟨p.addresses, source, dest⟩
  | .tcp _ _ p _ _ => p.syn
  | .other => false

/-- Whether the packet is allowed, and where it is redirected to. -/
def allowed (p : IpPacket) : Option (Option Redirect) :=
  match p.payload with
  | .udp source dest _ => if ctx.has_udp_session a ⟨p.addresses, source, dest⟩ then some none else r.verdict
  | .tcp _ dest p _ _ => if p.syn = false ∨ r.uid = 0 ∧ dest = 53 then some none else r.verdict
  | _ => r.verdict

/-- A packet of TCP is recorded. -/
def record (p : IpPacket) : Context :=
  match p.payload with
  | .tcp source dest packet options tcpoptlen =>
    { ctx with received := ctx.received ++ [{ key := ⟨p.addresses, source, dest⟩, packet, options, tcpoptlen }] }
  | _ => ctx

def dispatch (redirect : Option Redirect) (p : IpPacket) : Except Crash Context :=
  match p.payload with
  | .icmp plen protocol message => .ok (ctx.handle_icmp r p.addresses plen protocol message)
  | .udp source dest data => ctx.handle_udp r redirect ⟨p.addresses, source, dest⟩ data
  | .tcp source dest segment options tcpoptlen => ctx.handle_tcp r ⟨p.addresses, source, dest⟩ segment options tcpoptlen
  | .other => .ok ctx

/-- `handle_ip` for a packet that is parsed. -/
def handle_ip (p : IpPacket) : Except Crash Context :=
  let ctx := ctx.record p
  if a.maxsessions ≤ sessions ∧ ctx.mayOpen a p = true then .ok ctx
  else
    match ctx.allowed a r p with
    | some redirect => ctx.dispatch r redirect p
    | none =>
      match p.payload with
      | .udp source dest _ => .ok (ctx.block_udp r ⟨p.addresses, source, dest⟩)
      | _ => .ok ctx

end handle

section loop

variable (a : Arguments) (p : Pass)

/-- The events of the sockets of TCP are set. -/
def monitor : Context :=
  { ctx with
    ng_session := ctx.ng_session.mapIdx fun i s =>
      s.mapTcp fun t => if t.socket then t.monitor_tcp_session (p.monitors i) else t }

/-- The check of a session. -/
def checkSession (sessions : Nat) (c : Clock) : NgSession → NgSession
  | .icmp s => .icmp (s.check_icmp_session { c with sessions, maxsessions := a.maxsessions })
  | .udp s => .udp (s.check_udp_session { c with sessions, maxsessions := a.maxsessions })
  | .tcp s => .tcp (s.check_tcp_session { c with sessions, maxsessions := a.maxsessions })

/-- Takes the freed sessions out of the list. -/
def sweep (checked : List NgSession) : Context :=
  { ctx with
    ng_session := checked.filter fun s => !s.freed
    deleted := ctx.deleted ++ checked.filter NgSession.freed }

/-- The sessions are checked, unless that was done a moment ago. -/
def check (sessions : Nat) : Context :=
  if p.ms - ctx.last_check > EPOLL_MIN_CHECK then
    { ctx with last_check := p.ms }.sweep (ctx.ng_session.mapIdx fun i s => checkSession a sessions (p.clocks i) s)
  else ctx

/-- The event of a socket. One that is closed has none. -/
def socketEvent (config : NativeConfig) (ready : Ready) (s : NgSession) : NgSession :=
  match ready, s with
  | .icmp e, .icmp s => .icmp (if s.socket then s.check_icmp_socket e else s)
  | .udp error input reads, .udp s => .udp (if s.socket then s.readSocket config error input reads else s)
  | .tcp e, .tcp s => .tcp (if s.socket then s.check_tcp_socket e config else s)
  | _, s => s

/-- The events of the sockets at some places of the list. -/
def poll (config : NativeConfig) (events : List (Nat × Ready)) : Context :=
  { ctx with
    ng_session := events.foldl (fun sessions event =>
      sessions.modify event.1 (socketEvent config event.2)) ctx.ng_session }

/-- The packets that are read from the tun device. -/
def read (sessions : Nat) (packets : List (Reception × IpPacket)) : Except Crash Context :=
  run (fun ctx (packet : Reception × IpPacket) =>
    ctx.handle_ip a sessions packet.1 packet.2) ctx (packets.take TUN_YIELD)

/-- A pass of the loop of `handle_events`. -/
def pass : Except Crash Context :=
  let sessions := ctx.ng_session.countP NgSession.active
  match ((((ctx.monitor p).check a p sessions).poll a.config p.before).read a sessions p.packets) with
  | .ok ctx => .ok (ctx.poll a.config p.after)
  | .error crash => .error crash

/-- A session that is not allowed any more. -/
def disallow (tun : Tun) : NgSession → NgSession
  | .icmp s => .icmp { s with stop := true }
  | .udp s => .udp (if s.state = .ACTIVE then { s with state := .FINISHING } else s)
  | .tcp s => .tcp (if s.state ≠ .CLOSING ∧ s.state ≠ .CLOSE then s.write_rst tun else s)

/-- Blocked sessions are freed. -/
def unblock : NgSession → NgSession
  | .udp s => .udp (if s.state = .BLOCKED then { s with freed := true } else s)
  | s => s

/-- `check_allowed`. -/
def check_allowed (still : Nat → Bool) (tun : Tun) : Context :=
  ctx.sweep (ctx.ng_session.mapIdx fun i s => unblock (if still i then s else disallow tun s))

end loop

/-- `clear`. -/
def clear : Context :=
  { ctx with
    ng_session := []
    cleared := ctx.cleared ++ ctx.ng_session.map NgSession.clear }

/-- What the thread does: it begins, it passes through its loop, and the list is cleared
between two threads. -/
inductive Action where
  | start (still : Nat → Bool) (tun : Tun)
  | pass (p : Pass)
  | clear

def step (a : Arguments) (ctx : Context) : Action → Except Crash Context
  | .start still tun => .ok { ctx.check_allowed still tun with last_check := 0 }
  | .pass p => ctx.pass a p
  | .clear => .ok ctx.clear

end Context

end inspector.netguard.jni
