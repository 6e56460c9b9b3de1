import Inspector.Vpn.Acknowledgement

open nio Relation machine

namespace inspector.vpn

/-- What a segment built from the counters acknowledges at most: the bytes the
channel has accepted, or not even the SYN while it has accepted none. -/
def AcceptedLaw (start : BitVec 32) (before : List Event) : Event → Prop
  | .sent .finAck _ _ => True
  | .sent _ segment _ => segment.ack = streamSeq start (wroteBytes before) ∨
    segment.ack = start ∧ wroteBytes before = []
  | _ => True

/-- The upstream direction: every byte handed over has been accepted by the
channel or waits in the write buffer, in order. -/
structure Upload (start : BitVec 32) (v : View) : Prop where
  counter : Acknowledged start v
  conserved : wroteBytes v.log ++ v.toServer = txBytes v.log
  law : Law (AcceptedLaw start) v.log

/-- A new session has handed nothing on. -/
theorem Upload.new (sessionKey : TcpSessionKey) (sync : TcpSegment) (identify : BitVec 32) :
    Upload sync.seq (Session.new sessionKey sync identify).view where
  counter := Acknowledged.new sessionKey sync identify
  conserved := by
    rw [Session.view, Session.new, ByteBuffer.toList_exhausted]
    rfl
  law := Law.nil _

variable {start : BitVec 32}

/-- The counter itself is a lawful acknowledgement, connected or not. -/
theorem Acknowledged.serverSeq_accepted {v : View} (hinv : Acknowledged start v) :
    v.serverSeq = streamSeq start (wroteBytes v.log) ∨ v.serverSeq = start ∧ wroteBytes v.log = [] := by
  cases hready : v.connected with
  | false => exact .inr (hinv.unconnected hready)
  | true => exact .inl (hinv.connected hready)

/-- Every effect keeps the upload. -/
theorem Upload.effect {v w : View} (hupload : Upload start v) (heffect : Effect v w) : Upload start w := by
  have hcounter := hupload.counter.effect heffect
  obtain ⟨hbefore, hconserved, hlaw⟩ := hupload
  cases heffect with
  | accept data rest hvalid hready hqueue =>
    refine ⟨hcounter, ?_, by simpa [AcceptedLaw] using hlaw⟩
    rw [hqueue] at hconserved
    simpa using hconserved
  | acknowledge hvalid hready =>
    exact ⟨hcounter, by simpa using hconserved, Law.snoc_iff.mpr ⟨hlaw, hbefore.serverSeq_accepted⟩⟩
  | chunk data rest hvalid hdata hqueue =>
    exact ⟨hcounter, by simpa using hconserved, Law.snoc_iff.mpr ⟨hlaw, hbefore.serverSeq_accepted⟩⟩
  | connect hvalid hinterest =>
    obtain ⟨hseq, hwrote⟩ := hbefore.unconnected (hbefore.stream.unconnected_of_interest hinterest)
    refine ⟨hcounter, by simpa using hconserved, Law.snoc_iff.mpr ⟨hlaw, .inl ?_⟩⟩
    simp [streamSeq, hseq, hwrote]
  | tx data => exact ⟨hcounter, by simp [← hconserved], by simpa [AcceptedLaw] using hlaw⟩
  | _ => exact ⟨hcounter, by simpa using hconserved, by simpa [AcceptedLaw] using hlaw⟩

/-- The teardown keeps the upload. -/
theorem Upload.teardown {v w : View} (hupload : Upload start v) (hteardown : Teardown v w) :
    Upload start w := by
  have hcounter := hupload.counter.teardown hteardown
  obtain ⟨hbefore, hconserved, hlaw⟩ := hupload
  cases hteardown with
  | fin hvalid hfirst =>
    exact ⟨hcounter, by simpa using hconserved, Law.snoc_iff.mpr ⟨hlaw, hbefore.serverSeq_accepted⟩⟩
  | rst hvalid =>
    exact ⟨hcounter, by simpa using hconserved, Law.snoc_iff.mpr ⟨hlaw, hbefore.serverSeq_accepted⟩⟩
  | _ => exact ⟨hcounter, by simpa using hconserved, by simpa [AcceptedLaw] using hlaw⟩

/-- Every step keeps the upload. -/
theorem Upload.step {s next : Session} {a : Session.Step} (hupload : Upload start s.view)
    (hstep : s.step a = .ok next) : Upload start next.view :=
  Session.step_invariant (fun _ _ h => h.effect) (fun _ _ h => h.teardown) hupload hstep

/-- The log only grows. -/
theorem Session.log_prefix {s next : Session} {a : Session.Step} (hstep : s.step a = .ok next) :
    s.log <+: next.log := by
  have hgrows : ∀ (v : View) (event : Event), s.log <+: v.log → s.log <+: v.log ++ [event] :=
    fun v event hbegins => hbegins.trans (List.prefix_append _ _)
  refine Session.step_invariant (I := fun v => s.log <+: v.log) ?_ ?_ (List.prefix_refl _) hstep
  · intro v w hbegins heffect
    cases heffect with
    | interest write => exact hbegins
    | reset => exact hbegins
    | _ => exact hgrows v _ hbegins
  · intro v w hbegins hteardown
    cases hteardown with
    | ack fin hfin => exact hgrows v _ hbegins
    | fin hvalid hfirst => exact hgrows v _ hbegins
    | rst hvalid => exact hgrows v _ hbegins
    | _ => exact hbegins

/-- Only `handleTx` takes bytes over from the decoder. -/
theorem Session.txBytes_step {s next : Session} {a : Session.Step} (hstep : s.step a = .ok next) :
    txBytes next.log = txBytes s.log ++ a.txData := by
  obtain ⟨segment, direction, time, rfl, rfl⟩ | ⟨-, hending⟩ := step_cases hstep
  · have hfin := flatMap_teardowns (f := Event.txData) (fun _ _ _ => rfl) (s.handleFin_teardown segment direction time)
    simpa [Step.txData, txBytes] using hfin
  · cases hending with
    | effects hcloses hquiet hfits htx => exact htx
    | closed e hcloses hquiet hfits htx hnext =>
      have hclosed := flatMap_teardowns (f := Event.txData) (fun _ _ _ => rfl)
        ((s.beforeClose a).exceptionRaised_teardown e a.feedback (valid_beforeClose hcloses))
      have hnone : a.txData = [] := by
        cases a with
        | handleTx data => cases hcloses
        | _ => rfl
      rw [hnext, hnone, List.append_nil, ← htx]
      exact hclosed

/-- Before the app has sent its FIN, no acknowledgement of a FIN goes out: at most
the own FIN is remembered, and only once the key has been cancelled. -/
structure Unfinished (v : View) : Prop where
  live : v.key.valid = true → v.toServerFin = none ∧ v.toClientFin = none
  single : v.toServerFin = none ∨ v.toClientFin = none
  noAck : ∀ segment forward, .sent .finAck segment forward ∉ v.log

/-- No effect acknowledges a FIN. -/
theorem Unfinished.effect {v w : View} (hunfinished : Unfinished v) (heffect : Effect v w) : Unfinished w := by
  obtain ⟨hlive, hsingle, hack⟩ := hunfinished
  cases heffect <;> exact ⟨hlive, hsingle, by simpa using hack⟩

theorem Unfinished.effects {v w : View} (hunfinished : Unfinished v) (heffects : ReflTransGen Effect v w) :
    Unfinished w :=
  invariant_of_reflTransGen (fun _ _ h => h.effect) hunfinished heffects

namespace Session

/-- An exception acknowledges no FIN. -/
theorem unfinished_exceptionRaised {s : Session} (hunfinished : Unfinished s.view) (hvalid : s.key.valid = true)
    (e : IOException) (feedback : Feedback) : Unfinished (s.exceptionRaised e feedback).view := by
  obtain ⟨hserver, hclient⟩ : s.tcp.toServerFin = none ∧ s.tcp.toClientFin = none := hunfinished.live hvalid
  have hack := hunfinished.noAck
  simp only [view_log] at hack
  cases e with
  | other =>
    refine ⟨fun hkey => Bool.noConfusion hkey, .inl hserver, ?_⟩
    simpa [exceptionRaised, dispatch, closeKey] using hack
  | eof =>
    have hnone : s.closeKey.tcp.toClientFin.isNone = true := Option.isNone_iff_eq_none.mpr hclient
    simp only [exceptionRaised, hnone, ↓reduceIte]
    cases feedback with
    | none =>
      refine ⟨fun hkey => Bool.noConfusion hkey, .inl hserver, ?_⟩
      simpa [reenter, dispatch, closeKey] using hack
    | some answer =>
      obtain ⟨direction, time⟩ := answer
      cases direction with
      | ToServer =>
        simp only [reenter, handleFin_eq, rememberFin, dispatch, closeKey, hclient, TCPDispatcher.Fin.both]
        refine ⟨fun hkey => Bool.noConfusion hkey, .inr rfl, ?_⟩
        simpa using hack
      | ToClient =>
        simp only [reenter, handleFin_eq, rememberFin, dispatch, closeKey, hserver, TCPDispatcher.Fin.both]
        refine ⟨fun hkey => Bool.noConfusion hkey, .inl rfl, ?_⟩
        simpa using hack

/-- Without a FIN of the app, no step acknowledges one. -/
theorem unfinished_step {s next : Session} {a : Step} (hunfinished : Unfinished s.view)
    (ha : ∀ segment direction time, a ≠ .handleFin segment direction time) (hstep : s.step a = .ok next) :
    Unfinished next.view := by
  obtain ⟨segment, direction, time, hfin, -⟩ | ⟨-, hending⟩ := step_cases hstep
  · exact absurd hfin (ha segment direction time)
  · cases hending with
    | effects hcloses hquiet hfits htx => exact hunfinished.effects hquiet
    | closed e hcloses hquiet hfits htx hnext =>
      subst hnext
      exact unfinished_exceptionRaised (hunfinished.effects hquiet) (valid_beforeClose hcloses) e a.feedback

end Session

end inspector.vpn
