import Mathlib.Logic.Function.Basic
import Inspector.Base.Machine

namespace inspector.netguard

inductive HandshakeStatus where
  | handshaking
  | failed1
  | failed2
  | success
  deriving DecidableEq, Repr

/-- How far a handshake thread has come: it is within `connectServer`, it has put
`success` and closes its socket, or it has ended. -/
inductive Phase where
  | connecting
  | closing
  | finished
  deriving DecidableEq, Repr

/-- A handshake thread, with the status that the `create` that started it had read and
with its latch. -/
structure Handshake where
  status : Option HandshakeStatus
  countedDown : Bool
  phase : Phase
  deriving DecidableEq, Repr

/-- What `create` ends with: null, `new Allowed()`, the address of a proxy, or an
`IllegalStateException`. -/
inductive Answer where
  | blocked
  | allowed
  | redirected
  | illegalState
  deriving DecidableEq, Repr

/-- What there is for one server address: its entry in `handshakeStatusMap` and the
threads that were started for it. All that was put into the map is recorded, and each
answer with the entry that there was then. -/
structure Address where
  status : Option HandshakeStatus
  threads : List Handshake
  puts : List HandshakeStatus
  answers : List (Option HandshakeStatus × Answer)
  deriving DecidableEq, Repr

def Address.put (a : Address) (status : HandshakeStatus) : Address :=
  { a with status := some status, puts := a.puts ++ [status] }

variable {Server Certificate Context : Type} [DecidableEq Server] [DecidableEq Certificate]

/-- The maps of `ServerCertificate`. -/
structure ServerCertificate (Server Certificate Context : Type) where
  proxyCertMap : Certificate → Option Context
  serverSSLContextMap : Server → Option Context

namespace ServerCertificate

def getSSLContext (c : ServerCertificate Server Certificate Context) (serverAddress : Server) : Option Context :=
  c.serverSSLContextMap serverAddress

/-- `createSSLContext` for a peer certificate. There is no context for a certificate
that is new when generating one throws, and then the exception leaves it. -/
def createSSLContext (c : ServerCertificate Server Certificate Context) (peerCertificate : Certificate)
    (serverAddress : Server) (generated : Option Context) : Option (ServerCertificate Server Certificate Context) :=
  match c.proxyCertMap peerCertificate, generated with
  | some serverContext, _ =>
    some { c with serverSSLContextMap := Function.update c.serverSSLContextMap serverAddress (some serverContext) }
  | none, some serverContext =>
    some {
      proxyCertMap := Function.update c.proxyCertMap peerCertificate (some serverContext)
      serverSSLContextMap := Function.update c.serverSSLContextMap serverAddress (some serverContext) }
  | none, none => none

end ServerCertificate

/-- The process: the static maps, and the call of `create` that has read a status and
not yet gone on. -/
structure SSLProxy (Server Certificate Context : Type) where
  address : Server → Address
  certificates : ServerCertificate Server Certificate Context
  creating : Option (Server × Option HandshakeStatus)

/-- The steps of `create` and of the threads. -/
inductive Action (Server Certificate Context : Type) where
  /-- `create` reads the status of its server. -/
  | get (server : Server)
  /-- The rest of `create`. Its `SSLProxy` is opened, or an `IOException` keeps it from
  being so. -/
  | answer (opened : Bool)
  /-- The listener of a thread is called, with the certificate of the peer if it is
  verified. -/
  | handshakeCompleted (server : Server) (thread : Nat) (peer : Option Certificate) (generated : Option Context)
  /-- `connectServer` returns its socket. -/
  | connected (server : Server) (thread : Nat)
  /-- `connectServer` throws, at any point. -/
  | failed (server : Server) (thread : Nat)
  /-- The socket is closed at the end of its `try`, which may throw. -/
  | closed (server : Server) (thread : Nat) (throws : Bool)

namespace SSLProxy

variable (s : SSLProxy Server Certificate Context)

def initial : SSLProxy Server Certificate Context where
  address _ := { status := none, threads := [], puts := [], answers := [] }
  certificates := { proxyCertMap := fun _ => none, serverSSLContextMap := fun _ => none }
  creating := none

def setAddress (server : Server) (a : Address) : SSLProxy Server Certificate Context :=
  { s with address := Function.update s.address server a }

/-- The end of `create` with an answer. -/
def returns (server : Server) (answer : Answer) : SSLProxy Server Certificate Context :=
  let a := s.address server
  { s.setAddress server { a with answers := a.answers ++ [(a.status, answer)] } with creating := none }

/-- A new handshake is started. -/
def start (server : Server) (status : Option HandshakeStatus) : SSLProxy Server Certificate Context :=
  let a := (s.address server).put .handshaking
  let thread : Handshake := { status, countedDown := false, phase := .connecting }
  (s.setAddress server { a with threads := a.threads ++ [thread] }).returns server .blocked

/-- `create` from the status on that it has read. -/
def create (server : Server) (status : Option HandshakeStatus) (opened : Bool) :
    SSLProxy Server Certificate Context :=
  match status with
  | none => s.start server status
  | some .failed1 => s.start server status
  | some .handshaking => s.returns server .blocked
  | some .failed2 => s.returns server .allowed
  | some .success =>
    match s.certificates.getSSLContext server with
    | some _ => s.returns server (if opened then .redirected else .blocked)
    | none => s.returns server .illegalState

/-- The handler of the exceptions of a thread. -/
def handshakeFailed (status : Option HandshakeStatus) : HandshakeStatus :=
  match status with
  | none => .failed1
  | some _ => .failed2

/-- A thread goes on. -/
def setThread (server : Server) (thread : Nat) (t : Handshake) : SSLProxy Server Certificate Context :=
  let a := s.address server
  s.setAddress server { a with threads := a.threads.set thread t }

/-- A thread puts a status and goes on. -/
def putStatus (server : Server) (thread : Nat) (t : Handshake) (status : HandshakeStatus) :
    SSLProxy Server Certificate Context :=
  let a := (s.address server).put status
  s.setAddress server { a with threads := a.threads.set thread t }

/-- One step. It is an error when it cannot be taken. -/
def step : Action Server Certificate Context → Except Unit (SSLProxy Server Certificate Context)
  | .get server =>
    match s.creating with
    | none => .ok { s with creating := some (server, (s.address server).status) }
    | some _ => .error ()
  | .answer opened =>
    match s.creating with
    | some (server, status) => .ok (s.create server status opened)
    | none => .error ()
  | .handshakeCompleted server thread peer generated =>
    match (s.address server).threads[thread]?, peer with
    | some t, some peerCertificate =>
      -- an exception of `createSSLContext` is caught, and the latch is counted down all the same
      let certificates := (s.certificates.createSSLContext peerCertificate server generated).getD s.certificates
      .ok { s.setThread server thread { t with countedDown := true } with certificates }
    | some _, none => .ok s
    | none, _ => .error ()
  | .connected server thread =>
    match (s.address server).threads[thread]? with
    | some t =>
      if t.phase = .connecting ∧ t.countedDown then
        .ok (s.putStatus server thread { t with phase := .closing } .success)
      else .error ()
    | none => .error ()
  | .failed server thread =>
    match (s.address server).threads[thread]? with
    | some t =>
      if t.phase = .connecting then
        .ok (s.putStatus server thread { t with phase := .finished } (handshakeFailed t.status))
      else .error ()
    | none => .error ()
  | .closed server thread throws =>
    match (s.address server).threads[thread]? with
    | some t =>
      if t.phase = .closing then
        .ok (if throws then s.putStatus server thread { t with phase := .finished } (handshakeFailed t.status)
          else s.setThread server thread { t with phase := .finished })
      else .error ()
    | none => .error ()

/-- The steps that can be taken, and where they lead. -/
inductive Steps : Action Server Certificate Context → SSLProxy Server Certificate Context → Prop where
  | get (server : Server) (hidle : s.creating = none) :
    Steps (.get server) { s with creating := some (server, (s.address server).status) }
  | answer (opened : Bool) {server : Server} {status : Option HandshakeStatus}
    (hcreating : s.creating = some (server, status)) : Steps (.answer opened) (s.create server status opened)
  | unverified (server : Server) (thread : Nat) (generated : Option Context) :
    Steps (.handshakeCompleted server thread none generated) s
  | completed (server : Server) (thread : Nat) (peer : Certificate) (generated : Option Context) {t : Handshake}
    (hthread : (s.address server).threads[thread]? = some t) :
    Steps (.handshakeCompleted server thread (some peer) generated)
      { s.setThread server thread { t with countedDown := true } with
        certificates := (s.certificates.createSSLContext peer server generated).getD s.certificates }
  | connected (server : Server) (thread : Nat) {t : Handshake}
    (hthread : (s.address server).threads[thread]? = some t) (hphase : t.phase = .connecting)
    (hlatch : t.countedDown = true) :
    Steps (.connected server thread) (s.putStatus server thread { t with phase := .closing } .success)
  | failed (server : Server) (thread : Nat) {t : Handshake}
    (hthread : (s.address server).threads[thread]? = some t) (hphase : t.phase = .connecting) :
    Steps (.failed server thread)
      (s.putStatus server thread { t with phase := .finished } (handshakeFailed t.status))
  | closed (server : Server) (thread : Nat) {t : Handshake}
    (hthread : (s.address server).threads[thread]? = some t) (hphase : t.phase = .closing) :
    Steps (.closed server thread false) (s.setThread server thread { t with phase := .finished })
  | closeFailed (server : Server) (thread : Nat) {t : Handshake}
    (hthread : (s.address server).threads[thread]? = some t) (hphase : t.phase = .closing) :
    Steps (.closed server thread true)
      (s.putStatus server thread { t with phase := .finished } (handshakeFailed t.status))

theorem steps_of_step {s next : SSLProxy Server Certificate Context} {a : Action Server Certificate Context}
    (hstep : s.step a = .ok next) : s.Steps a next := by
  cases a with
  | get server =>
    simp only [step] at hstep
    split at hstep
    · rename_i hidle
      cases hstep
      exact .get server hidle
    · cases hstep
  | answer opened =>
    simp only [step] at hstep
    split at hstep
    · rename_i hcreating
      cases hstep
      exact .answer opened hcreating
    · cases hstep
  | handshakeCompleted server thread peer generated =>
    simp only [step] at hstep
    split at hstep
    · rename_i hthread
      cases hstep
      exact .completed server thread _ generated hthread
    · cases hstep
      exact .unverified server thread generated
    · cases hstep
  | connected server thread =>
    simp only [step] at hstep
    split at hstep
    · rename_i hthread
      split at hstep
      · rename_i hguard
        cases hstep
        exact .connected server thread hthread hguard.1 hguard.2
      · cases hstep
    · cases hstep
  | failed server thread =>
    simp only [step] at hstep
    split at hstep
    · rename_i hthread
      split at hstep
      · rename_i hphase
        cases hstep
        exact .failed server thread hthread hphase
      · cases hstep
    · cases hstep
  | closed server thread throws =>
    simp only [step] at hstep
    split at hstep
    · rename_i hthread
      split at hstep
      · rename_i hphase
        cases throws with
        | true =>
          cases hstep
          exact .closeFailed server thread hthread hphase
        | false =>
          cases hstep
          exact .closed server thread hthread hphase
      · cases hstep
    · cases hstep

/-- A run of `create` and of its threads. -/
def run (actions : List (Action Server Certificate Context)) : Except Unit (SSLProxy Server Certificate Context) :=
  machine.run step initial actions

end SSLProxy

end inspector.netguard
