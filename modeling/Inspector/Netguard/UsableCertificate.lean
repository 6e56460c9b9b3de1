import Inspector.Netguard.SSLProxy

open machine

namespace inspector.netguard

namespace ServerCertificate

variable {Server Certificate Context : Type} [DecidableEq Server] [DecidableEq Certificate]
  {c next : ServerCertificate Server Certificate Context} {peerCertificate : Certificate} {serverAddress : Server}
  {generated : Option Context}

/-- A context that is created is there for its address, and no other is lost. -/
theorem getSSLContext_of_create (hcreate : c.createSSLContext peerCertificate serverAddress generated = some next)
    (other : Server) : (next.getSSLContext other).isSome =
      (decide (other = serverAddress) || (c.getSSLContext other).isSome) := by
  unfold createSSLContext at hcreate
  split at hcreate
  · cases hcreate
    by_cases hsame : other = serverAddress <;> simp [getSSLContext, hsame]
  · cases hcreate
    by_cases hsame : other = serverAddress <;> simp [getSSLContext, hsame]
  · cases hcreate

end ServerCertificate

namespace SSLProxy

variable {Server Certificate Context : Type} [DecidableEq Server] [DecidableEq Certificate]
  {s next : SSLProxy Server Certificate Context} {a : Action Server Certificate Context}

/-- Whether there is a context for an address. -/
def certified (s : SSLProxy Server Certificate Context) (server : Server) : Bool :=
  (s.certificates.getSSLContext server).isSome

/-- When an address is `success` there is a context for it, and `create` has never come
to its default branch. -/
structure Usable (s : SSLProxy Server Certificate Context) : Prop where
  success : ∀ server, (s.address server).status = some .success → s.certified server
  answers : ∀ server, ∀ answer ∈ (s.address server).answers, answer.2 ≠ .illegalState

/-- A listener that is called creates a context, unless there is one. -/
def Creates (s : SSLProxy Server Certificate Context) : Action Server Certificate Context → Prop
  | .handshakeCompleted server _ (some peerCertificate) generated =>
    (s.certificates.createSSLContext peerCertificate server generated).isSome ∨ s.certified server
  | _ => True

instance decidableCreates (s : SSLProxy Server Certificate Context) (a : Action Server Certificate Context) :
    Decidable (s.Creates a) :=
  match a with
  | .handshakeCompleted server _ (some peerCertificate) generated =>
    inferInstanceAs (Decidable ((s.certificates.createSSLContext peerCertificate server generated).isSome ∨
      s.certified server))
  | .handshakeCompleted _ _ none _ => isTrue trivial
  | .get _ => isTrue trivial
  | .answer _ => isTrue trivial
  | .connected _ _ => isTrue trivial
  | .failed _ _ => isTrue trivial
  | .closed _ _ _ => isTrue trivial

/-- What holds as long as the listeners create contexts. -/
structure Certified (s : SSLProxy Server Certificate Context) : Prop extends Usable s where
  latches : ∀ server, ∀ t ∈ (s.address server).threads, t.countedDown = true → s.certified server
  creating : ∀ server, s.creating = some (server, some .success) → s.certified server

/-- What holds of the entry of an address. -/
structure Holds (s : SSLProxy Server Certificate Context) (server : Server) (x : Address) : Prop where
  success : x.status = some .success → s.certified server
  answers : ∀ answer ∈ x.answers, answer.2 ≠ .illegalState
  latches : ∀ t ∈ x.threads, t.countedDown = true → s.certified server

omit [DecidableEq Server] [DecidableEq Certificate] in
theorem Certified.holds (hs : s.Certified) (server : Server) : s.Holds server (s.address server) :=
  ⟨hs.success server, hs.answers server, hs.latches server⟩

omit [DecidableEq Certificate] in
theorem Certified.setAddress {server : Server} {x : Address} (hs : s.Certified) (hx : s.Holds server x) :
    (s.setAddress server x).Certified := by
  have hall : ∀ other, s.Holds other ((s.setAddress server x).address other) := by
    intro other
    by_cases hsame : other = server
    · subst hsame
      simpa [SSLProxy.setAddress] using hx
    · simpa [SSLProxy.setAddress, hsame] using hs.holds other
  exact ⟨⟨fun other => (hall other).success, fun other => (hall other).answers⟩, fun other => (hall other).latches,
    hs.creating⟩

omit [DecidableEq Certificate] in
theorem Certified.returns {server : Server} {answer : Answer} (hs : s.Certified) (hanswer : answer ≠ .illegalState) :
    (s.returns server answer).Certified := by
  have hx := hs.holds server
  have hset := hs.setAddress (x := { s.address server with
    answers := (s.address server).answers ++ [((s.address server).status, answer)] }) ⟨hx.success, ?_, hx.latches⟩
  · exact ⟨⟨hset.success, hset.answers⟩, hset.latches, fun _ hcreating => by cases hcreating⟩
  · intro p hp
    rcases List.mem_append.mp hp with hold | hnew
    · exact hx.answers p hold
    · rw [List.mem_singleton.mp hnew]
      exact hanswer

omit [DecidableEq Certificate] in
theorem Certified.start {server : Server} {status : Option HandshakeStatus} (hs : s.Certified) :
    (s.start server status).Certified := by
  have hx := hs.holds server
  refine Certified.returns (hs.setAddress ⟨?_, hx.answers, fun t ht hlatch => ?_⟩) (by simp)
  · intro hstatus
    cases hstatus
  · rcases List.mem_append.mp ht with hold | hnew
    · exact hx.latches t hold hlatch
    · rw [List.mem_singleton.mp hnew] at hlatch
      cases hlatch

omit [DecidableEq Certificate] in
theorem Certified.setThread {server : Server} {thread : Nat} {t : Handshake} (hs : s.Certified)
    (hlatch : t.countedDown = true → s.certified server) : (s.setThread server thread t).Certified := by
  have hx := hs.holds server
  refine hs.setAddress ⟨hx.success, hx.answers, fun u hu hcounted => ?_⟩
  rcases List.mem_or_eq_of_mem_set hu with hold | rfl
  · exact hx.latches u hold hcounted
  · exact hlatch hcounted

omit [DecidableEq Server] [DecidableEq Certificate] in
/-- Contexts are added. -/
theorem Certified.certificates {c : ServerCertificate Server Certificate Context} (hs : s.Certified)
    (hkept : ∀ server, s.certified server → (c.getSSLContext server).isSome) :
    ({ s with certificates := c } : SSLProxy Server Certificate Context).Certified :=
  ⟨⟨fun server hstatus => hkept server (hs.success server hstatus), hs.answers⟩,
    fun server t ht hlatch => hkept server (hs.latches server t ht hlatch),
    fun server hcreating => hkept server (hs.creating server hcreating)⟩

omit [DecidableEq Certificate] in
/-- A status is put by a thread. It is `success` only after the latch. -/
theorem Certified.putStatus {server : Server} {thread : Nat} {t : Handshake} {status : HandshakeStatus}
    (hs : s.Certified) (hlatch : t.countedDown = true → s.certified server)
    (hstatus : status = .success → s.certified server) : (s.putStatus server thread t status).Certified := by
  have hx := hs.holds server
  refine hs.setAddress ⟨fun hput => hstatus (Option.some.inj hput), hx.answers, fun u hu hcounted => ?_⟩
  rcases List.mem_or_eq_of_mem_set hu with hold | rfl
  · exact hx.latches u hold hcounted
  · exact hlatch hcounted

theorem handshakeFailed_ne_success (status : Option HandshakeStatus) : handshakeFailed status ≠ .success := by
  cases status <;> simp [handshakeFailed]

theorem Certified.step (hs : s.Certified) (hcreates : s.Creates a) (hstep : s.Steps a next) : next.Certified := by
  cases hstep with
  | get server hidle =>
    refine ⟨⟨hs.success, hs.answers⟩, hs.latches, fun other hcreating => ?_⟩
    simp only [Option.some.injEq, Prod.mk.injEq] at hcreating
    obtain ⟨rfl, hstatus⟩ := hcreating
    exact hs.success server hstatus
  | @answer opened server status hcreating =>
    unfold SSLProxy.create
    split
    · exact hs.start
    · exact hs.start
    · exact hs.returns (by simp)
    · exact hs.returns (by simp)
    · have hcertified := hs.creating server hcreating
      split
      · refine hs.returns ?_
        cases opened <;> simp
      · rename_i hnone
        rw [certified, hnone] at hcertified
        cases hcertified
  | unverified server thread generated => exact hs
  | @completed server thread peer generated t hthread =>
    have hadded : ∃ c, (s.certificates.createSSLContext peer server generated).getD s.certificates = c ∧
        (∀ other, s.certified other → (c.getSSLContext other).isSome) ∧ (c.getSSLContext server).isSome := by
      cases hcreate : s.certificates.createSSLContext peer server generated with
      | none =>
        refine ⟨s.certificates, rfl, fun _ hother => hother, ?_⟩
        rcases hcreates with hsome | hcertified
        · rw [hcreate] at hsome
          cases hsome
        · exact hcertified
      | some c =>
        have hcontext := ServerCertificate.getSSLContext_of_create hcreate
        refine ⟨c, rfl, fun other hother => ?_, ?_⟩
        · rw [certified] at hother
          rw [hcontext, hother, Bool.or_true]
        · rw [hcontext, decide_eq_true rfl, Bool.true_or]
    obtain ⟨c, hc, hkept, hserver⟩ := hadded
    rw [hc]
    exact (hs.certificates hkept).setThread fun _ => hserver
  | connected server thread hthread hphase hlatch =>
    have hcertified := hs.latches server _ (List.mem_of_getElem? hthread) hlatch
    exact hs.putStatus (fun _ => hcertified) fun _ => hcertified
  | @failed server thread t hthread hphase =>
    refine hs.putStatus (hs.latches server t (List.mem_of_getElem? hthread)) fun hsuccess => ?_
    exact absurd hsuccess (handshakeFailed_ne_success _)
  | @closed server thread t hthread hphase =>
    exact hs.setThread (hs.latches server t (List.mem_of_getElem? hthread))
  | @closeFailed server thread t hthread hphase =>
    refine hs.putStatus (hs.latches server t (List.mem_of_getElem? hthread)) fun hsuccess => ?_
    exact absurd hsuccess (handshakeFailed_ne_success _)

omit [DecidableEq Server] [DecidableEq Certificate] in
theorem certified_initial : (initial : SSLProxy Server Certificate Context).Certified := by
  refine ⟨⟨fun _ hstatus => ?_, fun _ answer hanswer => ?_⟩, fun _ t ht => ?_, fun _ hcreating => ?_⟩
  · cases hstatus
  · cases hanswer
  · cases ht
  · cases hcreating

/-- In every run in which the listeners create contexts, success means that there is
one. -/
theorem usable_of_creates {actions : List (Action Server Certificate Context)}
    (hcreates : Along step Creates initial actions) (hrun : run actions = .ok s) : s.Usable := by
  have hcertified : s.Certified := by
    refine run_along ?_ certified_initial hcreates hrun
    intro p action after hp haction hstep
    exact hp.step haction (steps_of_step hstep)
  exact hcertified.toUsable

/-- A handshake whose context is created, and a connection after it. -/
def intercepted : List (Action Nat Nat Nat) :=
  [.get 0, .answer true, .handshakeCompleted 0 0 (some 7) (some 8), .connected 0 0, .closed 0 0 false,
    .get 0, .answer true]

theorem usable_intercepted : ∃ s, run intercepted = .ok s ∧ s.Usable := by
  have hok : (run intercepted).isOk = true := by decide
  have hcreates : Along step Creates initial intercepted := by decide
  cases hrun : run intercepted with
  | error e =>
    rw [hrun] at hok
    cases hok
  | ok s => exact ⟨s, rfl, usable_of_creates hcreates hrun⟩

/-- A certificate that cannot be generated leaves a success without a context, and the
next connection comes to the default branch. -/
theorem success_without_context : ∃ s : SSLProxy Nat Nat Nat,
    run [.get 0, .answer true, .handshakeCompleted 0 0 (some 7) none, .connected 0 0, .closed 0 0 false,
      .get 0, .answer true] = .ok s ∧
    (s.address 0).status = some .success ∧ s.certificates.getSSLContext 0 = none ∧
    (s.address 0).answers = [(some .handshaking, .blocked), (some .success, .illegalState)] ∧ ¬ s.Usable := by
  refine ⟨_, rfl, rfl, rfl, rfl, fun husable => ?_⟩
  cases husable.success 0 rfl

end SSLProxy

end inspector.netguard
