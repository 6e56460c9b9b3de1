import Inspector.Base.Machine

open machine

namespace inspector.netguard

inductive Command where
  | start
  | reload
  | stop
  | watchdog
  deriving DecidableEq, Repr

/-- Where the command handler is, between two accesses of the fields. After
`stopNative` and `stopVPN`, `reload` goes on and `stop` does not. -/
inductive HandlerPc where
  | idle
  | watchdog
  | start
  | reload
  | stop
  | stopNative (reload : Bool)
  | takeThread (reload : Bool)
  | interrupt (thread : Option Nat) (reload : Bool)
  | stopVPN (reload : Bool)
  | clearVpn (reload : Bool)
  | startVPN
  | checkVpn
  | startNative
  | newThread (vpn : Option Nat)
  | setPriority
  | startThread
  deriving DecidableEq, Repr

/-- Where a forwarder thread is. After its last statement of forwarding it reads the
field `vpn`, closes what it has read, and sets both fields to null. -/
inductive ForwarderPc where
  | created
  | forwarding
  | readVpn
  | closeVpn (vpn : Option Nat)
  | clearVpn
  | clearThread
  | finished
  deriving DecidableEq, Repr

/-- A forwarder thread: the descriptor it was started for, and how many descriptors
had been established when it was created. -/
structure Forwarder where
  vpn : Option Nat
  established : Nat
  pc : ForwarderPc
  deriving DecidableEq, Repr

/-- What a forwarder does to a descriptor or a field. -/
inductive Effect where
  /-- It closes a descriptor. -/
  | close (forwarder : Nat) (vpn : Nat)
  /-- It sets `vpn` to null, which has been some value. -/
  | clearVpn (forwarder : Nat) (vpn : Option Nat)
  /-- It sets `vpnServerThread` to null, which has been some value. -/
  | clearThread (forwarder : Nat) (thread : Option Nat)
  deriving DecidableEq, Repr

/-- Descriptors are numbered as they are established, and threads as they are
created. -/
structure Sinkhole where
  vpn : Option Nat
  vpnServerThread : Option Nat
  tunnelThread : Bool
  handler : HandlerPc
  established : Nat
  forwarders : List Forwarder
  log : List Effect
  deriving DecidableEq, Repr

inductive Step where
  /-- The handler takes a command. -/
  | command (cmd : Command)
  /-- The handler goes on. What comes from outside is whether a descriptor is
  established, and whether a vpn server is used. -/
  | handler (answer : Bool)
  /-- A forwarder goes on. What comes from outside is whether a descriptor closes
  without an exception. -/
  | forwarder (k : Nat) (closes : Bool)
  deriving DecidableEq, Repr

namespace Sinkhole

variable (s : Sinkhole)

def initial : Sinkhole where
  vpn := none
  vpnServerThread := none
  tunnelThread := false
  handler := .idle
  established := 0
  forwarders := []
  log := []

def execute : Command → HandlerPc
  | .start => .start
  | .reload => .reload
  | .stop => .stop
  | .watchdog => .watchdog

/-- The statement that comes after `stopVPN` and its assignment. -/
def afterStop (reload : Bool) : HandlerPc := if reload then .startVPN else .idle

def setPc (k : Nat) (t : Forwarder) (pc : ForwarderPc) : Sinkhole :=
  { s with forwarders := s.forwarders.set k { t with pc } }

/-- One access of the fields by the handler. An exception ends the command. -/
def handle (answer : Bool) : Sinkhole :=
  match s.handler with
  | .idle => s
  | .watchdog => { s with handler := if s.vpn.isNone then .start else .idle }
  | .start => { s with handler := if s.vpn.isNone then .startVPN else .idle }
  | .reload => { s with handler := if s.vpn.isSome then .stopNative true else .startVPN }
  | .stop => { s with handler := if s.vpn.isSome then .stopNative false else .idle }
  | .stopNative reload =>
    if s.vpnServerThread.isSome then { s with handler := .takeThread reload }
    else { s with tunnelThread := false, handler := .stopVPN reload }
  | .takeThread reload => { s with handler := .interrupt s.vpnServerThread reload }
  | .interrupt none _ => { s with handler := .idle }
  | .interrupt (some _) reload => { s with vpnServerThread := none, handler := .stopVPN reload }
  | .stopVPN reload => { s with handler := if s.vpn.isSome then .clearVpn reload else .idle }
  | .clearVpn reload => { s with vpn := none, handler := afterStop reload }
  | .startVPN =>
    if answer then { s with vpn := some s.established, established := s.established + 1, handler := .checkVpn }
    else { s with vpn := none, handler := .checkVpn }
  | .checkVpn => { s with handler := if s.vpn.isSome then .startNative else .idle }
  | .startNative =>
    if answer then { s with handler := .newThread s.vpn } else { s with tunnelThread := true, handler := .idle }
  | .newThread vpn =>
    { s with
      vpnServerThread := some s.forwarders.length
      forwarders := s.forwarders ++ [{ vpn, established := s.established, pc := .created }]
      handler := .setPriority }
  | .setPriority => { s with handler := if s.vpnServerThread.isSome then .startThread else .idle }
  | .startThread =>
    match s.vpnServerThread with
    | none => { s with handler := .idle }
    | some k =>
      match s.forwarders[k]? with
      | some t => { s.setPc k t .forwarding with handler := .idle }
      | none => { s with handler := .idle }

def record (e : Effect) : Sinkhole := { s with log := s.log ++ [e] }

/-- One step of a forwarder. It may stop forwarding at any time. -/
def forward (k : Nat) (t : Forwarder) (closes : Bool) : Except Unit Sinkhole :=
  match t.pc with
  | .created => .error ()
  | .forwarding => .ok (s.setPc k t .readVpn)
  | .readVpn => .ok (s.setPc k t (.closeVpn s.vpn))
  | .closeVpn none => .ok (s.setPc k t .clearVpn)
  | .closeVpn (some d) => .ok ((s.setPc k t (if closes then .clearVpn else .clearThread)).record (.close k d))
  | .clearVpn => .ok { (s.setPc k t .clearThread).record (.clearVpn k s.vpn) with vpn := none }
  | .clearThread =>
    .ok { (s.setPc k t .finished).record (.clearThread k s.vpnServerThread) with vpnServerThread := none }
  | .finished => .error ()

def step (a : Step) : Except Unit Sinkhole :=
  match a with
  | .command cmd => if s.handler = .idle then .ok { s with handler := execute cmd } else .error ()
  | .handler answer => if s.handler = .idle then .error () else .ok (s.handle answer)
  | .forwarder k closes =>
    match s.forwarders[k]? with
    | some t => s.forward k t closes
    | none => .error ()

/-- A run of the handler and of the forwarders. -/
def run (steps : List Step) : Except Unit Sinkhole := machine.run step initial steps

end Sinkhole

end inspector.netguard
