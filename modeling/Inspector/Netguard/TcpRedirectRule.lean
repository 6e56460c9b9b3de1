import Inspector.Base.Regex
import Inspector.Base.Text

open regex text

namespace inspector.netguard

/-- A verdict on a packet. It is a redirect when it has an address. -/
structure Allowed where
  raddr : Option String
  rport : Int
  deriving DecidableEq, Repr

namespace Allowed

def new : Allowed := { raddr := none, rport := 0 }

def isRedirect (a : Allowed) : Bool := a.raddr.isSome

end Allowed

structure Packet where
  version : Int
  protocol : Int
  daddr : String
  dport : Int
  uid : Int

/-- A rule, with its pattern as what it matches. -/
structure TcpRedirectRule where
  socketPattern : String → Bool
  redirectAddr : String
  redirectPort : Int

namespace TcpRedirectRule

variable (rule : TcpRedirectRule) (packet : Packet)

def isMatch : Bool := rule.socketPattern (packet.daddr ++ ":" ++ toString packet.dport)

def createRedirect : Option Allowed :=
  if rule.isMatch packet then some { raddr := some rule.redirectAddr, rport := rule.redirectPort } else none

end TcpRedirectRule

/-- The piece for a star of a host. -/
def starPiece : Piece := { items := [.digit, .literal '.'], plus := true, group := 0 }

namespace TcpRedirectRule

def RULE_PATTERN : String := "([\\*\\d\\.]+):(\\d+)->([\\*\\w\\.]+):(\\d+)"

/-- The pieces of the pattern: the host, the port, the address and the port of the redirect. -/
def rulePattern : Pattern :=
  [{ items := [.literal '*', .digit, .literal '.'], plus := true, group := 1 },
    literal ':',
    { items := [.digit], plus := true, group := 2 },
    literal '-',
    literal '>',
    { items := [.literal '*', .word, .literal '.'], plus := true, group := 3 },
    literal ':',
    { items := [.digit], plus := true, group := 4 }]

theorem compile_RULE_PATTERN : compile RULE_PATTERN.toList = some rulePattern := by decide

/-- The text of the pattern of a rule. -/
def patternText (host port : List Char) : List Char :=
  (host.flatMap fun c => if c = '*' then "[\\d\\.]+".toList else [c]) ++ ':' :: port

/-- A rule for what has been found. The exception is that of a port that is no `int`. A
pattern that cannot be compiled makes no rule. -/
def ofFound (found : List (List Char)) : Except Unit (Option TcpRedirectRule) :=
  let group := regex.group rulePattern found
  match parseInt 10 (group 4) with
  | none => .error ()
  | some rport =>
    .ok ((compile (patternText (group 1) (group 2))).map fun pattern =>
      { socketPattern := fun s => «matches» pattern s.toList, redirectAddr := String.ofList (group 3),
        redirectPort := rport })

def parseTcpRedirectRules (rules : Option String) : Except Unit (List TcpRedirectRule) :=
  match rules with
  | none => .ok []
  | some rules => ((findAll rulePattern rules.toList 0).mapM ofFound).map List.reduceOption

/-- The documented rules for every address. -/
def documentedRule (port : List Char) : TcpRedirectRule where
  socketPattern s := «matches» (starPiece :: (':' :: port).map literal) s.toList
  redirectAddr := "localhost"
  redirectPort := 8888

end TcpRedirectRule

end inspector.netguard
