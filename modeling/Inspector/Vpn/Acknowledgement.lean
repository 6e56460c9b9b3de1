import Inspector.Vpn.Stream

open nio Relation machine

namespace inspector.vpn

/-- What every segment built from the two counters must satisfy: it acknowledges
the app's SYN and every byte the channel has accepted so far. -/
def AckLaw (start : BitVec 32) (before : List Event) : Event → Prop
  | .sent .finAck _ _ => True
  | .sent _ segment _ => segment.ack = streamSeq start (wroteBytes before)
  | _ => True

/-- The upstream counter: it stays at the SYN's own number until the connection
stands, and follows the bytes the channel accepts from then on. -/
structure Acknowledged (start : BitVec 32) (v : View) : Prop where
  stream : Stream v
  unconnected : v.connected = false → v.serverSeq = start ∧ wroteBytes v.log = []
  connected : v.connected = true → v.serverSeq = streamSeq start (wroteBytes v.log)

theorem Acknowledged.new (sessionKey : TcpSessionKey) (sync : TcpSegment) (identify : BitVec 32) :
    Acknowledged sync.seq (Session.new sessionKey sync identify).view where
  stream := Stream.new sessionKey sync identify
  unconnected := fun _ => ⟨rfl, rfl⟩
  connected := fun hconnected => Bool.noConfusion hconnected

variable {start : BitVec 32}

/-- An event that moves nothing into the channel leaves the upstream counter alone. -/
theorem Acknowledged.silent {v w : View} (hinv : Acknowledged start v) (hstream : Stream w)
    (hconnected : w.connected = v.connected) (hseq : w.serverSeq = v.serverSeq)
    (hwrote : wroteBytes w.log = wroteBytes v.log) : Acknowledged start w where
  stream := hstream
  unconnected := by
    rw [hconnected, hseq, hwrote]
    exact hinv.unconnected
  connected := by
    rw [hconnected, hseq, hwrote]
    exact hinv.connected

theorem Acknowledged.effect {v w : View} (hinv : Acknowledged start v) (heffect : Effect v w) :
    Acknowledged start w := by
  have hstream := hinv.stream.effect heffect
  cases heffect with
  | accept data rest hvalid hready hqueue =>
    refine ⟨hstream, by simp [hready], fun _ => ?_⟩
    simp only [wroteBytes_snoc, Event.wroteData, streamSeq_append, hinv.connected hready]
  | connect hvalid hinterest =>
    obtain ⟨hseq, hwrote⟩ := hinv.unconnected (hinv.stream.unconnected_of_interest hinterest)
    refine ⟨hstream, by simp, fun _ => ?_⟩
    simp [hwrote, hseq, streamSeq]
  | _ => exact hinv.silent hstream rfl rfl (by simp)

theorem Acknowledged.teardown {v w : View} (hinv : Acknowledged start v) (hteardown : Teardown v w) :
    Acknowledged start w := by
  have hstream := hinv.stream.teardown hteardown
  cases hteardown <;> exact hinv.silent hstream rfl rfl (by simp)

theorem Acknowledged.effects {v w : View} (hinv : Acknowledged start v) (heffects : ReflTransGen Effect v w) :
    Acknowledged start w :=
  invariant_of_reflTransGen (fun _ _ h => h.effect) hinv heffects

theorem Acknowledged.step {s next : Session} {a : Session.Step} (hinv : Acknowledged start s.view)
    (hstep : s.step a = .ok next) : Acknowledged start next.view :=
  Session.step_invariant (fun _ _ h => h.effect) (fun _ _ h => h.teardown) hinv hstep

/-- No effect short of closing the channel breaks the law: all of them need a
connection, except the connect itself, which counts the SYN. -/
theorem Acknowledged.ackLaw_effect {v w : View} (hinv : Acknowledged start v) (heffect : Effect v w) :
    Law (AckLaw start) w.log ↔ Law (AckLaw start) v.log := by
  cases heffect with
  | acknowledge hvalid hready =>
    rw [Law.snoc_iff]
    exact and_iff_left (hinv.connected hready)
  | chunk data rest hvalid hdata hqueue =>
    rw [Law.snoc_iff]
    exact and_iff_left (hinv.connected (hinv.stream.connected_of_queue (by simp [hqueue, hdata])))
  | connect hvalid hinterest =>
    obtain ⟨hseq, hwrote⟩ := hinv.unconnected (hinv.stream.unconnected_of_interest hinterest)
    rw [Law.snoc_iff]
    refine and_iff_left ?_
    simp [AckLaw, streamSeq, hseq, hwrote]
  | _ => simp [AckLaw]

theorem Acknowledged.ackLaw_effects {v w : View} (hinv : Acknowledged start v)
    (heffects : ReflTransGen Effect v w) : Law (AckLaw start) w.log ↔ Law (AckLaw start) v.log := by
  induction heffects with
  | refl => exact Iff.rfl
  | tail hrest hlast ih => exact ((hinv.effects hrest).ackLaw_effect hlast).trans ih

/-- A segment built from the counters acknowledges the SYN exactly when the
connection stands. -/
theorem Acknowledged.ack_eq_iff {v : View} (hinv : Acknowledged start v) :
    v.serverSeq = streamSeq start (wroteBytes v.log) ↔ v.connected = true := by
  refine ⟨fun hseq => ?_, hinv.connected⟩
  by_contra hnot
  obtain ⟨hstart, hwrote⟩ := hinv.unconnected (by simpa using hnot)
  rw [hwrote, hstart] at hseq
  simp only [streamSeq, List.length_nil, BitVec.ofNat_eq_ofNat, BitVec.add_zero] at hseq
  bv_omega

namespace Session

/-- The step does not send its closing segment before the connection stands. -/
def ConnectedAtClose (s : Session) (a : Step) : Prop :=
  ∀ e, s.closes a = some e → s.sendsAtClose e → s.connected = true

theorem ackLaw_ackEvent (fin : TCPDispatcher.Fin) (before : List Event) : AckLaw start before fin.ackEvent := by
  simp [TCPDispatcher.Fin.ackEvent, AckLaw]

/-- Closing the channel keeps the law exactly when it sends nothing or the
connection stands. -/
theorem ackLaw_exceptionRaised {s : Session} (hinv : Acknowledged start s.view) (e : IOException)
    (feedback : Feedback) :
    Law (AckLaw start) (s.exceptionRaised e feedback).log ↔
      Law (AckLaw start) s.log ∧ (s.sendsAtClose e → s.connected = true) := by
  rw [law_exceptionRaised ackLaw_ackEvent]
  refine and_congr_right fun _ => imp_congr_right fun _ => ?_
  cases e with
  | eof => exact hinv.ack_eq_iff
  | other => exact hinv.ack_eq_iff

/-- One step keeps the law exactly when it meets the condition. -/
theorem ackLaw_step {s next : Session} {a : Step} (hinv : Acknowledged start s.view)
    (hstep : s.step a = .ok next) :
    Law (AckLaw start) next.log ↔ Law (AckLaw start) s.log ∧ ConnectedAtClose s a := by
  obtain ⟨segment, direction, time, rfl, rfl⟩ | ⟨-, hending⟩ := step_cases hstep
  · rw [law_handleFin ackLaw_ackEvent]
    simp [ConnectedAtClose, closes]
  · cases hending with
    | effects hcloses hquiet hfits htx =>
      have hlog := hinv.ackLaw_effects hquiet
      simp only [view_log] at hlog
      simp [hlog, ConnectedAtClose, hcloses]
    | closed e hcloses hquiet hfits htx hnext =>
      subst hnext
      obtain ⟨readBuffer, clientSeq, log, hframe⟩ := s.beforeClose_frame a
      have hsends : (s.beforeClose a).sendsAtClose e ↔ s.sendsAtClose e := by
        rw [hframe]
        rfl
      have hconnected : (s.beforeClose a).connected = s.connected := by rw [hframe]
      have hlog := hinv.ackLaw_effects hquiet
      simp only [view_log] at hlog
      rw [ackLaw_exceptionRaised (hinv.effects hquiet), hlog, hsends, hconnected]
      simp [ConnectedAtClose, hcloses]

variable {sessionKey : TcpSessionKey} {sync : TcpSegment} {identify : BitVec 32}
  {steps : List Step} {s : Session}

theorem run_ackLaw (hrun : (Session.new sessionKey sync identify).run steps = .ok s) :
    Law (AckLaw sync.seq) s.log ↔
      Along step ConnectedAtClose (Session.new sessionKey sync identify) steps := by
  have hiff := run_good_iff (I := fun s => Acknowledged sync.seq s.view)
    (G := fun s => Law (AckLaw sync.seq) s.log) (Q := fun _ => True)
    (fun _ _ _ _ hinv => hinv.step) (fun _ _ _ _ hinv => ackLaw_step hinv) (fun _ _ => trivial)
    (Acknowledged.new sessionKey sync identify) hrun
  rw [hiff]
  exact and_iff_right (Law.nil _)

/-- Over any run, every segment built from the counters acknowledges the SYN and
all the bytes the channel has accepted exactly when no step of the run closes the
channel with a segment before the connection stands. -/
theorem acknowledgement_law_iff (hrun : (Session.new sessionKey sync identify).run steps = .ok s) :
    (∀ before site segment forward after, s.log = before ++ .sent site segment forward :: after →
      site ≠ .finAck → segment.ack = sync.seq + 1 + BitVec.ofNat 32 (wroteBytes before).length) ↔
    Along step ConnectedAtClose (Session.new sessionKey sync identify) steps := by
  rw [← run_ackLaw hrun]
  constructor
  · intro hack before event after hlog
    cases event with
    | sent site segment forward =>
      cases site with
      | finAck => trivial
      | _ => exact hack before _ segment forward after hlog (by simp)
    | _ => trivial
  · intro hlaw before site segment forward after hlog hsite
    have hevent := hlaw before _ after hlog
    cases site with
    | finAck => exact absurd rfl hsite
    | _ => exact hevent

theorem acknowledgement_law_iff_connected :
    ∃ s, (Session.new ⟨⟨1, 40000⟩, ⟨2, 80⟩⟩ (TcpPacketBuilder ⟨1, 40000⟩ ⟨2, 80⟩) 7).run
        [.connectable .finished none, .onReset, .idle none] = .ok s ∧
      ((∀ before site segment forward after, s.log = before ++ .sent site segment forward :: after →
        site ≠ .finAck → segment.ack =
          (TcpPacketBuilder ⟨1, 40000⟩ ⟨2, 80⟩).seq + 1 + BitVec.ofNat 32 (wroteBytes before).length) ↔
      Along step ConnectedAtClose (Session.new ⟨⟨1, 40000⟩, ⟨2, 80⟩⟩ (TcpPacketBuilder ⟨1, 40000⟩ ⟨2, 80⟩) 7)
        [.connectable .finished none, .onReset, .idle none]) :=
  ⟨_, rfl, acknowledgement_law_iff rfl⟩

/-- The connect is refused: the RST goes out with the acknowledgement number still
at the SYN's own sequence number. -/
theorem refused_connect_ack :
    ∃ (s : Session) (segment : TcpSegment),
      (Session.new ⟨⟨1, 40000⟩, ⟨2, 80⟩⟩ (TcpPacketBuilder ⟨1, 40000⟩ ⟨2, 80⟩) 7).run
        [.connectable .refused none] = .ok s ∧
      s.log = [.sent .exceptionRaised segment true] ∧ segment.isRst = true ∧
      segment.ack ≠ (TcpPacketBuilder ⟨1, 40000⟩ ⟨2, 80⟩).seq + 1 + BitVec.ofNat 32 (wroteBytes []).length :=
  ⟨_, _, rfl, rfl, rfl, by decide⟩

end Session

end inspector.vpn
