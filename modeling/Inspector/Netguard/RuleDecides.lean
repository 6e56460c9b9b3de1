import Inspector.Netguard.AddressAllowed
import Inspector.Netguard.RuleAddresses

open regex

namespace inspector.netguard

/-- The address of the server. It is a number, so that there is nothing to look up. -/
def Packet.createServerAddress (packet : Packet) : String × Int := (packet.daddr, packet.dport)

namespace SSLProxy

variable {Server Certificate Context : Type} [DecidableEq Server]
  (p : SSLProxy Server Certificate Context) (server : Server) (status : Option HandshakeStatus) (opened : Bool)

/-- What `create` returns for the status that it has read. -/
def answer : Answer :=
  (((p.create server status opened).address server).answers.getLast?.map Prod.snd).getD .blocked

theorem answer_returns (a : Answer) :
    (((p.returns server a).address server).answers.getLast?.map Prod.snd).getD .blocked = a := by
  simp [returns, setAddress]

/-- The rules are kept only when the handshake has succeeded and there is no context
for it, and a proxy is opened only when there is one. -/
theorem answer_eq : p.answer server status opened =
    if status = some .success then
      if (p.certificates.getSSLContext server).isNone then .illegalState else if opened then .redirected else .blocked
    else if status = some .failed2 then .allowed else .blocked := by
  unfold answer
  rcases status with _ | (_ | _ | _ | _)
  · exact answer_returns _ server _
  · exact answer_returns _ server _
  · exact answer_returns _ server _
  · exact answer_returns _ server _
  · unfold create
    cases hcontext : p.certificates.getSSLContext server with
    | none => simpa [hcontext] using answer_returns p server .illegalState
    | some context => simpa [hcontext] using answer_returns p server (if opened then .redirected else .blocked)

end SSLProxy

open TcpRedirectRule

namespace ServiceSinkhole

variable {Capture Certificate Context : Type} {s : ServiceSinkhole Capture} {packet : Packet} {rule : TcpRedirectRule}

theorem findSome_createRedirect {rules : List TcpRedirectRule} (hrule : rules.find? (·.isMatch packet) = some rule) :
    rules.findSome? (·.createRedirect packet) =
      some { raddr := some rule.redirectAddr, rport := rule.redirectPort } := by
  induction rules with
  | nil => cases hrule
  | cons first rules ih =>
    rw [List.findSome?_cons]
    cases hmatch : first.isMatch packet with
    | true =>
      obtain rfl : first = rule := by simpa [hmatch] using hrule
      simp [TcpRedirectRule.createRedirect, hmatch]
    | false =>
      have hnone : first.createRedirect packet = none := by simp [TcpRedirectRule.createRedirect, hmatch]
      rw [hnone]
      exact ih (by simpa [hmatch] using hrule)

/-- The verdict when `mitm` asks `create`, which has read a status of the server and
goes on from a state of the proxies. -/
def verdict (s : ServiceSinkhole Capture) (p : SSLProxy (String × Int) Certificate Context) (packet : Packet)
    (status : Option HandshakeStatus) (opened : Bool) (localPort : Int) : Verdict :=
  s.isAddressAllowed packet (p.answer packet.createServerAddress status opened) localPort

/-- The traffic of the inspected process is allowed. -/
theorem isAllowed_of_inspected (hprotocol : packet.protocol = 6) (huid : packet.uid = s.uid) :
    s.isAllowed packet = true := by
  unfold isAllowed
  split
  · rfl
  · rw [if_pos (by simp [huid, hprotocol, isSupported])]

theorem intercepts_iff (hprotocol : packet.protocol = 6) (huid : packet.uid = s.uid) :
    s.intercepts packet = true ↔ packet.version = 4 ∧ packet.isSSL s.sslPorts = true := by
  simp [intercepts, hprotocol, huid]

/-- The first rule that matches a packet of the inspected process decides, unless the
packet goes to an SSL port over IPv4. There the answer of `mitm` is taken instead, but
for the exception. -/
theorem first_rule_decides_iff (p : SSLProxy (String × Int) Certificate Context) (status : Option HandshakeStatus)
    (opened : Bool) (localPort : Int) (hprotocol : packet.protocol = 6) (huid : packet.uid = s.uid)
    (hrule : (s.redirectRules.getD []).find? (·.isMatch packet) = some rule) :
    (s.verdict p packet status opened localPort).allowed =
        some { raddr := some rule.redirectAddr, rport := rule.redirectPort } ↔
      (packet.version = 4 → packet.isSSL s.sslPorts = true → status = some .success ∧
        (p.certificates.getSSLContext packet.createServerAddress = none ∨
          (opened = true ∧ rule.redirectAddr = "127.0.0.1" ∧ rule.redirectPort = localPort))) := by
  have hredirect : s.redirect packet = some { raddr := some rule.redirectAddr, rport := rule.redirectPort } := by
    unfold redirect
    rw [if_pos (by simp [hprotocol, huid]), findSome_createRedirect hrule]
  have hallowed := isAllowed_of_inspected hprotocol huid
  rw [← and_imp, ← intercepts_iff hprotocol huid]
  unfold verdict
  cases hintercepts : s.intercepts packet with
  | false =>
    rw [isAddressAllowed_of_not_intercepts hallowed hintercepts, hredirect]
    simp
  | true =>
    unfold isAddressAllowed
    rw [if_pos hallowed, if_pos hintercepts, hredirect, SSLProxy.answer_eq]
    by_cases hsuccess : status = some .success
    · rw [if_pos hsuccess]
      cases hcontext : p.certificates.getSSLContext packet.createServerAddress with
      | none => simp [mitm, hsuccess]
      | some context =>
        cases opened with
        | false => simp [mitm, hsuccess]
        | true => simp [mitm, hsuccess, eq_comm]
    · rw [if_neg hsuccess]
      by_cases hfailed : status = some .failed2
      · simp [mitm, hfailed, Allowed.new]
      · simp [mitm, hsuccess, hfailed]

/-- A console sets a rule. -/
def ruled (rule : TcpRedirectRule) : ServiceSinkhole Unit :=
  after [.onConsoleConnected 10001 (some ()) 42, .packet (.taken [rule])]

/-- A packet of the inspected process. -/
def inspectedPacket (dport : Int) : Packet := { version := 4, protocol := 6, daddr := "10.0.0.1", dport, uid := 10001 }

/-- A rule for a port that is no SSL port decides. One for an SSL port does so while its
server has no certificate yet. -/
theorem documented_rule_decides :
    (parseTcpRedirectRules (some "*:8443->localhost:8888") = .ok [documentedRule "8443".toList] ∧
      ((ruled (documentedRule "8443".toList)).verdict (SSLProxy.initial : SSLProxy _ Unit Unit) (inspectedPacket 8443)
        none true 0).allowed = some { raddr := some "localhost", rport := 8888 }) ∧
    parseTcpRedirectRules (some "*:443->localhost:8888") = .ok [documentedRule "443".toList] ∧
      ((ruled (documentedRule "443".toList)).verdict (SSLProxy.initial : SSLProxy _ Unit Unit) (inspectedPacket 443)
        (some .success) true 0).allowed = some { raddr := some "localhost", rport := 8888 } := by
  have hplain : ((ruled (documentedRule "8443".toList)).redirectRules.getD []).find?
    (·.isMatch (inspectedPacket 8443)) =
      some (documentedRule "8443".toList) := rfl
  have hssl : ((ruled (documentedRule "443".toList)).redirectRules.getD []).find? (·.isMatch (inspectedPacket 443)) =
      some (documentedRule "443".toList) := rfl
  refine ⟨⟨rfl, (first_rule_decides_iff SSLProxy.initial none true 0 rfl rfl hplain).mpr ?_⟩, rfl,
    (first_rule_decides_iff SSLProxy.initial (some .success) true 0 rfl rfl hssl).mpr fun _ _ => ⟨rfl, .inl rfl⟩⟩
  intro _ hport
  revert hport
  decide

/-- The first packet to the server of the documented rule is blocked. -/
theorem documented_rule_overridden :
    parseTcpRedirectRules (some "*:443->localhost:8888") = .ok [documentedRule "443".toList] ∧
      (documentedRule "443".toList).isMatch (inspectedPacket 443) = true ∧
      ((ruled (documentedRule "443".toList)).verdict (SSLProxy.initial : SSLProxy _ Unit Unit) (inspectedPacket 443)
        none true 0).allowed = none :=
  ⟨rfl, rfl, rfl⟩

end ServiceSinkhole

end inspector.netguard
