import Inspector.Vpn.Invariant
import Inspector.Vpn.VpnWorker

open nio machine

namespace inspector.vpn

/-- Whether the dispatcher has sent its FIN or RST. -/
def terminated (log : List Event) : Bool :=
  log.any fun
    | .sent .exceptionRaised _ _ => true
    | _ => false

/-- What is sent after the terminating segment: bare acknowledgements of FINs. -/
def QuietLaw (before : List Event) : Event → Prop
  | .sent site segment _ => terminated before = true → site = .finAck ∧
    segment.isSyn = false ∧ segment.data = [] ∧ segment.isFin = false ∧ segment.isRst = false
  | _ => True

/-- The terminating segment leaves the key cancelled. -/
structure Terminated (v : View) : Prop where
  live : v.key.valid = true → terminated v.log = false
  law : Law QuietLaw v.log

/-- A valid session may send. -/
theorem Terminated.sent {v : View} (hterminated : Terminated v) (hvalid : v.key.valid = true)
    (site : Site) (segment : TcpSegment) (forward : Bool) :
    Law QuietLaw (v.log ++ [.sent site segment forward]) := by
  rw [Law.snoc_iff]
  refine ⟨hterminated.law, fun hbefore => ?_⟩
  rw [hterminated.live hvalid] at hbefore
  cases hbefore

/-- Every effect keeps quiet behind the termination. -/
theorem Terminated.effect {v w : View} (hterminated : Terminated v) (heffect : Effect v w) : Terminated w := by
  have hsent := fun hvalid => hterminated.sent hvalid
  obtain ⟨hlive, hlaw⟩ := hterminated
  cases heffect with
  | interest write => exact ⟨hlive, hlaw⟩
  | reset => exact ⟨hlive, hlaw⟩
  | acknowledge hvalid hready => exact ⟨by simpa [terminated] using hlive, hsent hvalid _ _ _⟩
  | chunk data rest hvalid hdata hqueue => exact ⟨by simpa [terminated] using hlive, hsent hvalid _ _ _⟩
  | connect hvalid hinterest => exact ⟨by simpa [terminated] using hlive, hsent hvalid _ _ _⟩
  | _ => exact ⟨by simpa [terminated] using hlive, by simpa [QuietLaw] using hlaw⟩

/-- The teardown keeps quiet behind the termination. -/
theorem Terminated.teardown {v w : View} (hterminated : Terminated v) (hteardown : Teardown v w) :
    Terminated w := by
  have hsent := fun hvalid => hterminated.sent hvalid
  obtain ⟨hlive, hlaw⟩ := hterminated
  cases hteardown with
  | ack fin hfin =>
    refine ⟨by simpa [terminated] using hlive, Law.snoc_iff.mpr ⟨hlaw, fun _ => ?_⟩⟩
    exact ⟨rfl, rfl, rfl, rfl, rfl⟩
  | cancel => exact ⟨fun hkey => Bool.noConfusion hkey, hlaw⟩
  | fin hvalid hfirst => exact ⟨fun hkey => Bool.noConfusion hkey, hsent hvalid _ _ _⟩
  | rst hvalid => exact ⟨fun hkey => Bool.noConfusion hkey, hsent hvalid _ _ _⟩
  | _ => exact ⟨hlive, hlaw⟩

namespace Session

/-- A session some dispatcher can get into. -/
def Dispatched (s : Session) : Prop :=
  ∃ sessionKey sync identify steps, (Session.new sessionKey sync identify).run steps = .ok s

/-- A new session is one that the dispatcher made. -/
theorem Dispatched.new (sessionKey : TcpSessionKey) (sync : TcpSegment) (identify : BitVec 32) :
    Dispatched (Session.new sessionKey sync identify) := ⟨sessionKey, sync, identify, [], rfl⟩

/-- A run goes on from a session of the dispatcher. -/
theorem Dispatched.run {s next : Session} {steps : List Step} (hdispatched : Dispatched s)
    (hrun : s.run steps = .ok next) : Dispatched next := by
  obtain ⟨sessionKey, sync, identify, first, hfirst⟩ := hdispatched
  exact ⟨sessionKey, sync, identify, first ++ steps, (run_append hfirst).trans hrun⟩

/-- So does a step. -/
theorem Dispatched.step {s next : Session} {a : Step} (hdispatched : Dispatched s)
    (hstep : s.step a = .ok next) : Dispatched next := by
  have hrun : s.run [a] = .ok next := (run_singleton _ s a).trans hstep
  exact hdispatched.run hrun

/-- A session of the dispatcher is quiet behind its termination. -/
theorem Dispatched.terminated {s : Session} (hdispatched : Dispatched s) : Terminated s.view := by
  obtain ⟨sessionKey, sync, identify, steps, hrun⟩ := hdispatched
  refine run_invariant (I := fun s => Terminated s.view) ?_ ⟨fun _ => rfl, Law.nil _⟩ hrun
  exact fun _ _ _ h => step_invariant (fun _ _ h => h.effect) (fun _ _ h => h.teardown) h

end Session

end inspector.vpn
