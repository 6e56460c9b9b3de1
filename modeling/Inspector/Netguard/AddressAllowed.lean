import Mathlib.Data.List.Sort
import Mathlib.Algebra.Order.Ring.Int
import Inspector.Netguard.SSLProxy
import Inspector.Netguard.TcpRedirectRule

namespace inspector.netguard

/-- The ports are sorted, so that a binary search finds each of them. -/
def Packet.isSSL (packet : Packet) (sslPorts : List Int) : Bool :=
  (if sslPorts.isEmpty then [443] else sslPorts).contains packet.dport

/-- The method that has set the inspected process last. -/
inductive Effective where
  | onStartCommand
  | enableNetwork
  | disableNetwork
  deriving DecidableEq, Repr

/-- The fields of the service that a verdict depends on, for captures of some type. -/
structure ServiceSinkhole (Capture : Type) where
  packetCapture : Option Capture
  uid : Int
  pid : Int
  extraUid : Int
  redirectRules : Option (List TcpRedirectRule)
  sslPorts : List Int
  last : Option Effective

/-- The extras of the intent that starts the service. -/
structure Bundle (Capture : Type) where
  packetCapture : Option Capture
  uid : Int
  pid : Int
  extraUid : Int

/-- What becomes of a packet that is handed to the console. -/
inductive OnPacket where
  /-- It is taken, and there are new rules. -/
  | taken (rules : List TcpRedirectRule)
  | ignored
  | deadObject
  | otherException

inductive Event (Capture : Type) where
  | onStartCommand (bundle : Option (Bundle Capture))
  | updateSSLSettings (ports : List Int)
  | onConsoleConnected (uid : Int) (packetCapture : Option Capture) (pid : Int)
  | onConsoleDisconnected
  | onActivityResume (uid : Int) (packetCapture : Option Capture) (pid : Int)
  | packet (outcome : OnPacket)

/-- What `isAddressAllowed` ends with, and whether it has asked `mitm`. -/
structure Verdict where
  allowed : Option Allowed
  mitm : Bool
  deriving DecidableEq, Repr

namespace ServiceSinkhole

variable {Capture : Type} (s : ServiceSinkhole Capture)

def initial : ServiceSinkhole Capture where
  packetCapture := none
  uid := 0
  pid := 0
  extraUid := 0
  redirectRules := none
  sslPorts := []
  last := none

def onStartCommand (bundle : Option (Bundle Capture)) : ServiceSinkhole Capture :=
  { s with
    packetCapture := bundle.bind Bundle.packetCapture
    uid := bundle.elim (-1) Bundle.uid
    pid := bundle.elim (-1) Bundle.pid
    extraUid := bundle.elim 0 Bundle.extraUid
    last := some .onStartCommand }

def enableNetwork (uid : Int) (packetCapture : Option Capture) (pid : Int) : ServiceSinkhole Capture :=
  { s with uid, packetCapture, pid, last := some .enableNetwork }

def disableNetwork : ServiceSinkhole Capture :=
  { s with uid := -1, pid := -1, packetCapture := none, last := some .disableNetwork }

def onActivityResume (uid : Int) (packetCapture : Option Capture) (pid : Int) : ServiceSinkhole Capture :=
  if s.uid = uid ∧ s.pid ≠ pid ∧ packetCapture.isNone then s
  else if packetCapture.isSome then s.enableNetwork uid packetCapture pid else s

/-- The command `packet`. Nothing is handed over without a capture. -/
def handlePacket (outcome : OnPacket) : ServiceSinkhole Capture :=
  match s.packetCapture, outcome with
  | some _, .taken rules => { s with redirectRules := some rules }
  | some _, .deadObject => s.disableNetwork
  | _, _ => s

def onEvent : Event Capture → ServiceSinkhole Capture
  | .onStartCommand bundle => s.onStartCommand bundle
  | .updateSSLSettings ports => { s with sslPorts := ports.insertionSort (· ≤ ·) }
  | .onConsoleConnected uid packetCapture pid => s.enableNetwork uid packetCapture pid
  | .onConsoleDisconnected => s.disableNetwork
  | .onActivityResume uid packetCapture pid => s.onActivityResume uid packetCapture pid
  | .packet outcome => s.handlePacket outcome

/-- The service after some events. -/
def after (events : List (Event Capture)) : ServiceSinkhole Capture := events.foldl onEvent initial

def isSupported (protocol : Int) : Bool := protocol = 1 || protocol = 59 || protocol = 6 || protocol = 17

def SYSTEM_UID : Int := 2000

/-- Whether the traffic of a packet is that of the system, of the inspected process or
of the extra one. -/
def isAllowed (packet : Packet) : Bool :=
  if packet.uid < SYSTEM_UID && isSupported packet.protocol then true
  else if packet.uid = s.uid && isSupported packet.protocol then true
  else s.extraUid > 0 && packet.uid = s.extraUid && isSupported packet.protocol

/-- The answer of `SSLProxy.create`, for a proxy at some port. -/
def mitm (answer : Answer) (localPort : Int) : Except Unit (Option Allowed) :=
  match answer with
  | .blocked => .ok none
  | .allowed => .ok (some Allowed.new)
  | .redirected => .ok (some { raddr := some "127.0.0.1", rport := localPort })
  | .illegalState => .error ()

def redirect (packet : Packet) : Option Allowed :=
  if packet.protocol = 6 && packet.uid = s.uid then (s.redirectRules.getD []).findSome? (·.createRedirect packet)
  else none

/-- Whether `mitm` is asked about a packet that is allowed. -/
def intercepts (packet : Packet) : Bool :=
  packet.protocol = 6 && packet.version = 4 && packet.uid = s.uid && packet.isSSL s.sslPorts

def isAddressAllowed (packet : Packet) (answer : Answer) (localPort : Int) : Verdict :=
  if s.isAllowed packet then
    let allowed := (s.redirect packet).getD Allowed.new
    if s.intercepts packet then
      match mitm answer localPort with
      | .ok result => { allowed := result, mitm := true }
      | .error _ => { allowed := some allowed, mitm := true }
    else { allowed := some allowed, mitm := false }
  else { allowed := none, mitm := false }

/-- After `disableNetwork` no process is inspected. -/
def Disabled (s : ServiceSinkhole Capture) : Prop := s.last = some .disableNetwork → s.uid = -1

variable {s}

theorem Disabled.onEvent (hs : s.Disabled) (event : Event Capture) : (s.onEvent event).Disabled := by
  cases event with
  | onStartCommand bundle =>
    intro hlast
    simp [ServiceSinkhole.onEvent, onStartCommand] at hlast
  | updateSSLSettings ports => exact hs
  | onConsoleConnected uid packetCapture pid =>
    intro hlast
    simp [ServiceSinkhole.onEvent, enableNetwork] at hlast
  | onConsoleDisconnected => exact fun _ => rfl
  | onActivityResume uid packetCapture pid =>
    change (s.onActivityResume uid packetCapture pid).Disabled
    unfold onActivityResume
    split
    · exact hs
    · split
      · intro hlast
        simp [enableNetwork] at hlast
      · exact hs
  | packet outcome =>
    change (s.handlePacket outcome).Disabled
    unfold handlePacket
    split
    · exact hs
    · exact fun _ => rfl
    · exact hs

theorem disabled_after (events : List (Event Capture)) : (after events : ServiceSinkhole Capture).Disabled := by
  unfold after
  refine List.foldlRecOn events _ (motive := Disabled) ?_ fun s hs event _ => hs.onEvent event
  intro hlast
  cases hlast

/-- The traffic of other processes is blocked. -/
theorem isAllowed_eq_false {packet : Packet} (hsystem : SYSTEM_UID ≤ packet.uid) (huid : packet.uid ≠ s.uid)
    (hextra : ¬ (0 < s.extraUid ∧ packet.uid = s.extraUid)) : s.isAllowed packet = false := by
  unfold isAllowed
  rw [if_neg (by simp [Int.not_lt.mpr hsystem]), if_neg (by simp [huid])]
  simp only [gt_iff_lt, Bool.and_eq_false_iff, decide_eq_false_iff_not]
  by_cases hpositive : 0 < s.extraUid
  · exact .inl (.inr fun heq => hextra ⟨hpositive, heq⟩)
  · exact .inl (.inl hpositive)

/-- Rules redirect the packets of the inspected process that they match. -/
theorem redirect_isSome_iff {packet : Packet} : (s.redirect packet).isSome = true ↔
    packet.protocol = 6 ∧ packet.uid = s.uid ∧ ∃ rule ∈ s.redirectRules.getD [], rule.isMatch packet = true := by
  unfold redirect
  by_cases hguard : packet.protocol = 6 ∧ packet.uid = s.uid
  · have hmatch : ∀ rule : TcpRedirectRule, (rule.createRedirect packet).isSome = rule.isMatch packet := by
      intro rule
      unfold TcpRedirectRule.createRedirect
      cases rule.isMatch packet <;> rfl
    rw [if_pos (by simp [hguard]), List.findSome?_isSome_iff]
    simp [hguard, hmatch]
  · rw [if_neg (by simpa using hguard)]
    constructor
    · intro hnone
      cases hnone
    · rintro ⟨hprotocol, huid, -⟩
      exact absurd ⟨hprotocol, huid⟩ hguard

theorem isRedirect_of_redirect {packet : Packet} {a : Allowed} (hredirect : s.redirect packet = some a) :
    a.isRedirect = true := by
  unfold redirect at hredirect
  split at hredirect
  · obtain ⟨rule, -, hrule⟩ := List.exists_of_findSome?_eq_some hredirect
    unfold TcpRedirectRule.createRedirect at hrule
    split at hrule
    · cases hrule
      rfl
    · cases hrule
  · cases hredirect

/-- The verdict on a packet keeps to what may be intercepted: nothing after
`disableNetwork`, and the traffic of other processes is blocked at any time. -/
structure Confined (s : ServiceSinkhole Capture) (packet : Packet) (verdict : Verdict) : Prop where
  disconnected : s.last = some .disableNetwork →
    (∀ a ∈ verdict.allowed, a.isRedirect = false) ∧ verdict.mitm = false
  others : SYSTEM_UID ≤ packet.uid → packet.uid ≠ s.uid → ¬ (0 < s.extraUid ∧ packet.uid = s.extraUid) →
    verdict.allowed = none

/-- A packet that is not asked about is let through as it is or redirected by a rule. -/
theorem isAddressAllowed_of_not_intercepts {packet : Packet} {answer : Answer} {localPort : Int}
    (hallowed : s.isAllowed packet = true) (hnot : s.intercepts packet = false) :
    s.isAddressAllowed packet answer localPort =
      { allowed := some ((s.redirect packet).getD Allowed.new), mitm := false } := by
  unfold isAddressAllowed
  rw [if_pos hallowed, hnot]
  rfl

theorem mitm_of_intercepts {packet : Packet} {answer : Answer} {localPort : Int}
    (hallowed : s.isAllowed packet = true) (hintercepts : s.intercepts packet = true) :
    (s.isAddressAllowed packet answer localPort).mitm = true := by
  unfold isAddressAllowed
  rw [if_pos hallowed, if_pos hintercepts]
  cases mitm answer localPort <;> rfl

/-- The packets that a rule or `mitm` may bear on. -/
def Exposed (s : ServiceSinkhole Capture) (packet : Packet) : Prop :=
  packet.protocol = 6 ∧ ((∃ rule ∈ s.redirectRules.getD [], rule.isMatch packet = true) ∨
    (packet.version = 4 ∧ packet.isSSL s.sslPorts = true))

theorem exposed_iff {packet : Packet} (huid : packet.uid = s.uid) :
    s.Exposed packet ↔ (s.redirect packet).isSome = true ∨ s.intercepts packet = true := by
  rw [redirect_isSome_iff]
  simp only [Exposed, intercepts, Bool.and_eq_true, decide_eq_true_eq, huid, true_and, and_true]
  rw [and_or_left, and_assoc]

theorem isAllowed_of_unknown {packet : Packet} (huid : packet.uid = -1) (hprotocol : packet.protocol = 6) :
    s.isAllowed packet = true := by
  unfold isAllowed
  rw [if_pos (by simp [huid, hprotocol, SYSTEM_UID, isSupported])]

/-- Whatever has happened before, a verdict keeps to what may be intercepted, unless
the network is disabled and an exposed packet has an unknown uid. -/
theorem confined_iff (events : List (Event Capture)) (packet : Packet) (answer : Answer) (localPort : Int) :
    Confined (after events) packet ((after events).isAddressAllowed packet answer localPort) ↔
      ((after events).last = some .disableNetwork → packet.uid = -1 → ¬ (after events).Exposed packet) := by
  have hdisabled := disabled_after events
  generalize (after events : ServiceSinkhole Capture) = s at hdisabled ⊢
  constructor
  · intro hconfined hlast hunknown hexposed
    obtain ⟨hredirect, hmitm⟩ := hconfined.disconnected hlast
    have hallowed := isAllowed_of_unknown (s := s) hunknown hexposed.1
    by_cases hintercepts : s.intercepts packet = true
    · rw [mitm_of_intercepts hallowed hintercepts] at hmitm
      cases hmitm
    · rw [exposed_iff (hunknown.trans (hdisabled hlast).symm)] at hexposed
      obtain ⟨a, ha⟩ := Option.isSome_iff_exists.mp (hexposed.resolve_right hintercepts)
      rw [isAddressAllowed_of_not_intercepts hallowed (by simpa using hintercepts), ha] at hredirect
      have hnot := hredirect a rfl
      rw [isRedirect_of_redirect ha] at hnot
      cases hnot
  · intro hsafe
    refine ⟨fun hlast => ?_, fun hsystem huid hextra => ?_⟩
    · have hneither : ¬ ((s.redirect packet).isSome = true ∨ s.intercepts packet = true) := by
        by_cases huid : packet.uid = s.uid
        · rw [← exposed_iff huid]
          exact hsafe hlast (huid.trans (hdisabled hlast))
        · rw [redirect_isSome_iff]
          simp [intercepts, huid]
      rw [not_or, Bool.not_eq_true, Bool.not_eq_true, Option.isSome_eq_false_iff, Option.isNone_iff_eq_none]
        at hneither
      by_cases hallowed : s.isAllowed packet = true
      · rw [isAddressAllowed_of_not_intercepts hallowed hneither.2, hneither.1]
        refine ⟨fun a ha => ?_, rfl⟩
        cases ha
        rfl
      · unfold isAddressAllowed
        rw [if_neg hallowed]
        exact ⟨fun a ha => (by cases ha), rfl⟩
    · unfold isAddressAllowed
      rw [isAllowed_eq_false hsystem huid hextra]
      rfl

/-- A console that redirects a port of every server has come and gone. -/
def comeAndGone : List (Event Unit) :=
  [.onConsoleConnected 10001 (some ()) 42, .packet (.taken [TcpRedirectRule.documentedRule "80".toList]),
    .onConsoleDisconnected]

/-- A packet whose uid is unknown. -/
def unknownPacket : Packet := { version := 4, protocol := 6, daddr := "10.0.0.1", dport := 80, uid := -1 }

/-- The packet is redirected although the console has gone. -/
theorem redirected_without_console :
    TcpRedirectRule.parseTcpRedirectRules (some "*:80->localhost:8888") =
      .ok [TcpRedirectRule.documentedRule "80".toList] ∧
    (after comeAndGone).isAddressAllowed unknownPacket .blocked 0 =
      { allowed := some { raddr := some "localhost", rport := 8888 }, mitm := false } ∧
    ¬ Confined (after comeAndGone) unknownPacket ((after comeAndGone).isAddressAllowed unknownPacket .blocked 0) := by
  have hverdict : (after comeAndGone).isAddressAllowed unknownPacket .blocked 0 =
      { allowed := some { raddr := some "localhost", rport := 8888 }, mitm := false } := by decide +kernel
  refine ⟨rfl, hverdict, fun hconfined => ?_⟩
  rw [hverdict] at hconfined
  cases (hconfined.disconnected rfl).1 _ rfl

end ServiceSinkhole

end inspector.netguard
