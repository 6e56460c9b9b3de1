import Inspector.Base.Machine

open machine

namespace inspector.vpn

/-- Where the VPN service is, between two accesses of the fields. It fetches the rules
after `onPacket` has returned true. -/
inductive FetchPc where
  | idle
  | getTcpRedirectRules
  | readRules
  deriving DecidableEq, Repr

/-- The fields of the capture that hold the redirect rules, the threads that are between
the two steps of `setTcpRedirectRules`, and the rules that the service has fetched last. -/
structure RedirectRules where
  tcpRedirectRules : Option String
  tcpRedirectRulesUpdated : Bool
  setters : List Nat
  service : FetchPc
  fetched : Option (Option String)
  deriving DecidableEq, Repr

namespace RedirectRules

/-- The accesses of the fields. -/
inductive Access where
  | writeRules (thread : Nat) (rules : Option String)
  | setUpdated (thread : Nat)
  | onPacket
  | clearUpdated
  | readRules
  deriving DecidableEq, Repr

variable (s : RedirectRules)

def initial : RedirectRules where
  tcpRedirectRules := none
  tcpRedirectRulesUpdated := true
  setters := []
  service := .idle
  fetched := none

def step : Access → Except Unit RedirectRules
  | .writeRules thread rules =>
    if thread ∈ s.setters then .error ()
    else .ok { s with tcpRedirectRules := rules, setters := thread :: s.setters }
  | .setUpdated thread =>
    if thread ∈ s.setters then
      .ok { s with tcpRedirectRulesUpdated := true, setters := s.setters.erase thread }
    else .error ()
  | .onPacket =>
    if s.service = .idle then
      .ok { s with service := if s.tcpRedirectRulesUpdated then .getTcpRedirectRules else .idle }
    else .error ()
  | .clearUpdated =>
    if s.service = .getTcpRedirectRules then
      .ok { s with tcpRedirectRulesUpdated := false, service := .readRules }
    else .error ()
  | .readRules =>
    if s.service = .readRules then .ok { s with fetched := some s.tcpRedirectRules, service := .idle }
    else .error ()

/-- The accesses of any interleaving of the setters and the service. -/
def run (accesses : List Access) : Except Unit RedirectRules := machine.run step initial accesses

/-- No setter and no fetch is between its two steps. -/
def Quiet : Prop := s.setters = [] ∧ s.service ≠ .readRules

variable {s} {next : RedirectRules}

end RedirectRules

end inspector.vpn
