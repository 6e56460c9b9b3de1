import Mathlib.Logic.Function.Basic
import Inspector.Base.Machine
import Inspector.Base.Text
import Inspector.Vpn.VpnWorker

open text

namespace inspector.vpn

structure PortPair where
  localPort : Int
  remotePort : Int
  deriving DecidableEq, Repr

def PortPair.swap (pair : PortPair) : PortPair := { localPort := pair.remotePort, remotePort := pair.localPort }

structure ProcResult where
  direction : TcpDirection
  uid : Int
  deriving DecidableEq, Repr

inductive ProcException where
  | IllegalStateException
  | NumberFormatException
  | IllegalArgumentException
  | ArrayIndexOutOfBoundsException
  | NullPointerException
  deriving DecidableEq, Repr

structure MyProcStat where
  map : PortPair → Option ProcResult

/-- The stats of a group. A file without lines has none. -/
abbrev ProcStatGroup := List (Option MyProcStat)

namespace ProcParser

/-- An address and a port. -/
structure Socket where
  address : List Nat
  port : Int
  deriving DecidableEq, Repr

/-- What is read of a line. -/
structure Entry where
  localSocket : Socket
  remoteSocket : Socket
  uid : Int
  deriving DecidableEq, Repr

def Entry.ports (e : Entry) : PortPair := { localPort := e.localSocket.port, remotePort := e.remoteSocket.port }

def decodeHex : List Char → Option (List Nat)
  | [] => some []
  | [_] => none
  | high :: low :: rest => do
    let h ← digit 16 high
    let l ← digit 16 low
    let bytes ← decodeHex rest
    return (h * 16 + l) :: bytes

def parseInetSocketAddress (socket : List Char) : Except ProcException Socket := do
  let some index := indexOf socket ':' | throw .IllegalStateException
  let some ipAddress := decodeHex (substring socket 0 index) | throw .IllegalStateException
  if ipAddress.length ≠ 4 ∧ ipAddress.length ≠ 16 then throw .IllegalStateException
  let some port := parseInt 16 (socket.drop (index + 1)) | throw .NumberFormatException
  if port < 0 ∨ 65535 < port then throw .IllegalArgumentException
  return { address := ipAddress.reverse, port }

def token (tokens : List (List Char)) (index : Nat) : Except ProcException (List Char) :=
  match tokens[index]? with
  | some t => .ok t
  | none => .error .ArrayIndexOutOfBoundsException

def parseLine (line : List Char) : Except ProcException Entry := do
  let tokens := split (trim line)
  let localAddress ← token tokens 1
  let remoteAddress ← token tokens 2
  let some uid := parseInt 10 (← token tokens 7) | throw .NumberFormatException
  let localSocket ← parseInetSocketAddress localAddress
  let remoteSocket ← parseInetSocketAddress remoteAddress
  return { localSocket, remoteSocket, uid }

/-- The name of the last checked column is compared the wrong way round. -/
def isHeader (line : List Char) : Bool :=
  let headers := split (trim line)
  !(headers.length ≤ 9 || headers[1]? != some "local_address".toList ||
    (headers[2]? != some "rem_address".toList && headers[2]? != some "remote_address".toList) ||
    headers[9]? == some "!uid".toList)

end ProcParser

namespace MyProcStat

def new : MyProcStat := { map := fun _ => none }

def «matches» (stat : MyProcStat) (pair : PortPair) : Option ProcResult := stat.map pair

def addEntry (stat : MyProcStat) (e : ProcParser.Entry) : MyProcStat :=
  let toServer := e.ports
  let toClient := e.ports.swap
  { map := Function.update (Function.update stat.map toServer (some { direction := .ToServer, uid := e.uid })) toClient
      (some { direction := .ToClient, uid := e.uid }) }

end MyProcStat

namespace ProcStatGroup

def «matches» : ProcStatGroup → PortPair → Except ProcException (Option ProcResult)
  | [], _ => .ok none
  | none :: _, _ => .error .NullPointerException
  | some stat :: stats, pair =>
    match stat.matches pair with
    | some result => .ok (some result)
    | none => ProcStatGroup.matches stats pair

end ProcStatGroup

namespace ProcParser

def parseStep (stat : MyProcStat) (line : List Char) : Except ProcException MyProcStat :=
  (parseLine line).map stat.addEntry

/-- The lines of a file. The first one is its header. -/
def parse : List (List Char) → Except ProcException (Option MyProcStat)
  | [] => .ok none
  | header :: lines =>
    if isHeader header then (machine.run parseStep MyProcStat.new lines).map some else .error .IllegalStateException

/-- `parseTcp` and `parseUdp`, with the lines of the two files that they read. -/
def parseFiles (file file6 : List (List Char)) : Except ProcException ProcStatGroup := do
  let stat ← parse file
  let stat6 ← parse file6
  return [stat, stat6]

end ProcParser

namespace VpnWorker

/-- `matchesTcp` and `matchesUdp`: the files are read when the stats that were read last
have no result. -/
def matchesStat (last : Option ProcStatGroup) (parsed : Except ProcException ProcStatGroup) (pair : PortPair) :
    Except ProcException (Option ProcResult) := do
  let result ← match last with
    | none => .ok none
    | some stats => stats.matches pair
  match result with
  | some result => return some result
  | none =>
    let stats ← parsed
    stats.matches pair

structure UdpPacket where
  source : InetSocketAddress
  destination : InetSocketAddress
  data : List UInt8
  deriving DecidableEq, Repr

def UdpPacket.pair (p : UdpPacket) : PortPair :=
  { localPort := p.source.port.toNat, remotePort := p.destination.port.toNat }

/-- The packet that a dispatcher is registered for, when a channel could be opened. -/
def process (p : UdpPacket) (result : Option ProcResult) (opened : Bool) : Option UdpPacket :=
  match result with
  | none => none
  | some result => if result.direction ≠ .ToServer then none else if opened then some p else none

/-- The ports by which `onEstablish` looks a session up. -/
def sessionPair (key : TcpSessionKey) : PortPair :=
  { localPort := key.client.port.toNat, remotePort := key.server.port.toNat }

end VpnWorker

end inspector.vpn
