import Mathlib.Algebra.Order.Ring.Int
import Mathlib.Data.List.Basic
import Mathlib.Tactic.Common

namespace inspector.vpn

/-- What reading a buffer may throw. -/
inductive BufferException where
  | bufferUnderflow
  | indexOutOfBounds
  deriving DecidableEq, Repr

namespace DNS

/-- The state of `getHostname`. The packet stands at a position, which is left alone in
the index mode. -/
structure Hostname where
  position : Nat
  indexMode : Bool
  indexPacket : Int
  len : Int
  sb : List (BitVec 16)
  deriving DecidableEq, Repr

/-- `packet.get(index)` -/
def getAt (data : List UInt8) (index : Int) : Option UInt8 := if 0 ≤ index then data[index.toNat]? else none

/-- A byte of the packet as a `short`. Only in the index mode does it keep its sign. -/
def value (signed : Bool) (b : UInt8) : Int := if signed then b.toBitVec.toInt else b.toNat

namespace Hostname

def start (position : Nat) : Hostname := { position, indexMode := false, indexPacket := 0, len := -1, sb := [] }

def get8BitsStream (data : List UInt8) (s : Hostname) : Except BufferException (Int × Hostname) :=
  if s.indexMode then
    match getAt data s.indexPacket with
    | some b => .ok (value true b, { s with indexPacket := s.indexPacket + 1 })
    | none => .error .indexOutOfBounds
  else
    match data[s.position]? with
    | some b => .ok (value false b, { s with position := s.position + 1 })
    | none => .error .bufferUnderflow

end Hostname

def isPointer (value : Int) : Bool := value % 256 / 64 % 4 = 3

/-- Where a pointer leads. The header of the datagram comes first. -/
def target (c ch : Int) : Int := 20 + 8 + (c % 64 * 256 + ch)

namespace Hostname

/-- The body of the loop, and whether it breaks. -/
def body (data : List UInt8) (s : Hostname) : Except BufferException (Hostname × Bool) := do
  let (c, s) ← s.get8BitsStream data
  if s.len = -1 ∨ s.len = 0 then
    if c = 0 then return (s, true)
    else if isPointer c then
      let (ch, s) ← s.get8BitsStream data
      return ({ s with indexPacket := target c ch, indexMode := true }, false)
    else
      let sb := if s.len = 0 then s.sb ++ [BitVec.ofNat 16 '.'.toNat] else s.sb
      return ({ s with sb, len := c }, false)
  else return ({ s with sb := s.sb ++ [BitVec.ofInt 16 c], len := s.len - 1 }, false)

end Hostname

/-- The loop, for so many passes. -/
def getHostname (data : List UInt8) : Nat → Hostname → Option (Except BufferException Hostname)
  | 0, _ => none
  | fuel + 1, s =>
    match s.body data with
    | .error e => some (.error e)
    | .ok (s, true) => some (.ok s)
    | .ok (s, false) => getHostname data fuel s

end DNS

/-- A program that reads the packet: single bytes and names. -/
inductive Decoder (α : Type) where
  | done (value : α)
  | get (next : UInt8 → Decoder α)
  | hostname (next : List (BitVec 16) → Decoder α)
  /-- `packet.position()` -/
  | position (next : Nat → Decoder α)

namespace Decoder

variable {α β : Type}

protected def bind : Decoder α → (α → Decoder β) → Decoder β
  | done value, f => f value
  | get next, f => get fun b => (next b).bind f
  | hostname next, f => hostname fun sb => (next sb).bind f
  | position next, f => position fun p => (next p).bind f

instance : Monad Decoder where
  pure := done
  bind := Decoder.bind

/-- What the program ends with and where the packet stands then, if each loop for a name
ends within so many passes. -/
def run (data : List UInt8) (fuel : Nat) : Decoder α → Nat → Option (Except BufferException (α × Nat))
  | done value, p => some (.ok (value, p))
  | get next, p =>
    match data[p]? with
    | some b => run data fuel (next b) (p + 1)
    | none => some (.error .bufferUnderflow)
  | hostname next, p =>
    match DNS.getHostname data fuel (.start p) with
    | some (.ok s) => run data fuel (next s.sb) s.position
    | some (.error e) => some (.error e)
    | none => none
  | position next, p => run data fuel (next p) p

/-- So many times in a row. -/
def replicate (program : Decoder α) : Nat → Decoder (List α)
  | 0 => pure []
  | n + 1 => do return (← program) :: (← program.replicate n)

end Decoder

inductive InetAddress where
  | inet4 (addr : List UInt8)
  | inet6 (addr : List UInt8)
  deriving DecidableEq, Repr

namespace InetAddress

/-- Whether an IPv6 address stands for an IPv4 one. -/
def isIPv4Mapped (addr : List UInt8) : Bool := addr.take 12 = List.replicate 10 0 ++ [0xFF, 0xFF]

def getByAddress (addr : List UInt8) : Option InetAddress :=
  if addr.length = 4 then some (inet4 addr)
  else if addr.length = 16 then some (if isIPv4Mapped addr then inet4 (addr.drop 12) else inet6 addr)
  else none

end InetAddress

structure Question where
  hostname : List (BitVec 16)
  type : Nat
  queryClass : Nat
  deriving DecidableEq, Repr

/-- An answer. Where the packet stands when it is read is recorded. -/
structure Answer extends Question where
  ttl : Nat
  length : Nat
  address : Option InetAddress
  canonicalName : Option (List (BitVec 16))
  start : Nat
  deriving DecidableEq, Repr

structure DNS where
  transactionID : Nat
  response : Bool
  opCode : Nat
  truncated : Bool
  recursionDesired : Bool
  nonAuthenticatedData : Bool
  noOfQuestion : Nat
  noOfAnswer : Nat
  noOfAuthority : Nat
  noOfAdditional : Nat
  queries : List Question
  answers : List Answer
  deriving DecidableEq, Repr

namespace DNS

def getByte : Decoder UInt8 := .get .done

def get16Bits : Decoder Nat := do return (← getByte).toNat * 2 ^ 8 + (← getByte).toNat

def get32Bits : Decoder Nat := do return (← get16Bits) * 2 ^ 16 + (← get16Bits)

def hostname : Decoder (List (BitVec 16)) := .hostname .done

def getIPAddress : Decoder (Option InetAddress) := do return InetAddress.getByAddress (← getByte.replicate 4)

def getIPv6Address : Decoder (Option InetAddress) := do return InetAddress.getByAddress (← getByte.replicate 16)

def question : Decoder Question := do return { hostname := ← hostname, type := ← get16Bits, queryClass := ← get16Bits }

/-- What is read of the data of an answer. -/
def answerData (type : Nat) : Decoder (Option InetAddress × Option (List (BitVec 16))) :=
  match type with
  | 1 => do return (← getIPAddress, none)
  | 5 => do return (none, some (← hostname))
  | 28 => do return (← getIPv6Address, none)
  | _ => return (none, none)

def answer : Decoder Answer := do
  let start ← Decoder.position Decoder.done
  let question ← question
  let ttl ← get32Bits
  let length ← get16Bits
  let (address, canonicalName) ← answerData question.type
  return { question with ttl, length, address, canonicalName, start }

/-- The constructor. -/
def new : Decoder DNS := do
  let transactionID ← get16Bits
  let flags ← get16Bits
  let noOfQuestion ← get16Bits
  let noOfAnswer ← get16Bits
  let noOfAuthority ← get16Bits
  let noOfAdditional ← get16Bits
  let queries ← question.replicate noOfQuestion
  let answers ← answer.replicate noOfAnswer
  return {
    transactionID
    response := flags / 2 ^ 15 % 2 = 1
    opCode := flags / 2 ^ 11 % 2 ^ 4
    truncated := flags / 2 ^ 9 % 2 = 1
    recursionDesired := flags / 2 ^ 8 % 2 = 1
    nonAuthenticatedData := flags / 2 ^ 4 % 2 = 1
    noOfQuestion
    noOfAnswer
    noOfAuthority
    noOfAdditional
    queries
    answers }

end DNS

end inspector.vpn
