import Inspector.Vpn.Truncation

open nio Relation machine

namespace inspector.vpn

/-- The sequence number the next segment toward the app must have, after these
events: the payload and the dispatcher's own FIN are counted. -/
def nextSeq (start : BitVec 32) (before : List Event) : BitVec 32 :=
  streamSeq start (payloadBytes before) + if finSent before then 1 else 0

/-- What every segment forwarded after the SYN|ACK must satisfy. -/
def SeqLaw (before : List Event) : Event → Prop
  | .sent _ segment true => ∀ start, synAckSeq before = some start → segment.seq = nextSeq start before
  | _ => True

/-- The two remembered FINs: the own one is remembered exactly when it has been
sent, which is after the key has been cancelled, and only the acknowledgement of
the app's one is forwarded. -/
structure Closing (v : View) : Prop where
  stream : Stream v
  own : v.toClientFin.isSome = finSent v.log
  live : v.key.valid = true → finSent v.log = false
  serverForward : ∀ fin, v.toServerFin = some fin → fin.forward = true
  clientForward : ∀ fin, v.toClientFin = some fin → fin.forward = false

/-- A new session has not sent a FIN. -/
theorem Closing.new (sessionKey : TcpSessionKey) (sync : TcpSegment) (identify : BitVec 32) :
    Closing (Session.new sessionKey sync identify).view where
  stream := Stream.new sessionKey sync identify
  own := rfl
  live := fun _ => rfl
  serverForward := fun _ hfin => by cases hfin
  clientForward := fun _ hfin => by cases hfin

/-- Each effect keeps the state of the close and the numbers of the FINs in step. -/
theorem Closing.effect {v w : View} (hclosing : Closing v) (heffect : Effect v w) : Closing w := by
  have hstream := hclosing.stream.effect heffect
  obtain ⟨-, hown, hlive, hserver, hclient⟩ := hclosing
  cases heffect <;> exact ⟨hstream, by simpa using hown, by simpa using hlive, hserver, hclient⟩

/-- The same for a series of effects. -/
theorem Closing.effects {v w : View} (hclosing : Closing v) (heffects : ReflTransGen Effect v w) : Closing w :=
  invariant_of_reflTransGen (fun _ _ h => h.effect) hclosing heffects

/-- As long as the key is valid, no FIN of the server has been kept. -/
theorem Closing.first_of_valid {v : View} (hclosing : Closing v) (hvalid : v.key.valid = true) :
    v.toClientFin = none := by
  have hnone : v.toClientFin.isSome = false := hclosing.own.trans (hclosing.live hvalid)
  simpa using hnone

/-- A segment numbered by the client counter is in sequence while the key is valid. -/
theorem Closing.clientSeq_eq {v : View} (hclosing : Closing v) (hvalid : v.key.valid = true)
    {start : BitVec 32} (hstart : synAckSeq v.log = some start) : v.clientSeq = nextSeq start v.log := by
  rw [nextSeq, hclosing.live hvalid]
  cases hready : v.connected with
  | false =>
    rw [(hclosing.stream.unconnected hready).2] at hstart
    cases hstart
  | true =>
    obtain ⟨-, actual, hactual, hseq⟩ := hclosing.stream.connected hready
    rw [hactual] at hstart
    cases hstart
    simpa using hseq

/-- An effect before the close keeps the law of the numbers as it is. -/
theorem Closing.seqLaw_effect {v w : View} (hclosing : Closing v) (heffect : Effect v w) :
    Law SeqLaw w.log ↔ Law SeqLaw v.log := by
  cases heffect with
  | acknowledge hvalid hready =>
    rw [Law.snoc_iff]
    exact and_iff_left fun start hstart => hclosing.clientSeq_eq hvalid hstart
  | chunk data rest hvalid hdata hqueue =>
    rw [Law.snoc_iff]
    exact and_iff_left fun start hstart => hclosing.clientSeq_eq hvalid hstart
  | connect hvalid hinterest =>
    have hnone := (hclosing.stream.unconnected (hclosing.stream.unconnected_of_interest hinterest)).2
    rw [Law.snoc_iff]
    refine and_iff_left fun start hstart => ?_
    rw [hnone] at hstart
    cases hstart
  | _ => simp [SeqLaw]

/-- The same for a series of effects. -/
theorem Closing.seqLaw_effects {v w : View} (hclosing : Closing v) (heffects : ReflTransGen Effect v w) :
    Law SeqLaw w.log ↔ Law SeqLaw v.log := by
  induction heffects with
  | refl => exact Iff.rfl
  | tail hrest hlast ih => exact ((hclosing.effects hrest).seqLaw_effect hlast).trans ih

/-- The acknowledgement of a FIN is lawful exactly when it has the number that comes next. -/
theorem seqLaw_ackEvent (log : List Event) (fin : TCPDispatcher.Fin) :
    SeqLaw log fin.ackEvent ↔ (fin.forward = true →
      ∀ start, synAckSeq log = some start → fin.fin.ack = nextSeq start log) := by
  unfold TCPDispatcher.Fin.ackEvent
  cases fin.forward with
  | false => simp [SeqLaw]
  | true => simp [SeqLaw, TCPDispatcher.Fin.ackSegment]

/-- Acknowledgements of FINs do not move the sequence, so each is judged by the
events before all of them. -/
theorem seqLaw_append_acks (log : List Event) (fins : List TCPDispatcher.Fin) :
    Law SeqLaw (log ++ fins.map TCPDispatcher.Fin.ackEvent) ↔
      Law SeqLaw log ∧ ∀ fin ∈ fins, SeqLaw log fin.ackEvent := by
  induction fins generalizing log with
  | nil => simp
  | cons fin rest ih =>
    have hsyn : synAckSeq (log ++ [fin.ackEvent]) = synAckSeq log := by
      simp [TCPDispatcher.Fin.ackEvent]
    have hnext : ∀ start, nextSeq start (log ++ [fin.ackEvent]) = nextSeq start log := by
      simp [nextSeq, TCPDispatcher.Fin.ackEvent]
    have hsame : ∀ other : TCPDispatcher.Fin,
        SeqLaw (log ++ [fin.ackEvent]) other.ackEvent ↔ SeqLaw log other.ackEvent := by
      intro other
      simp only [seqLaw_ackEvent, hsyn, hnext]
    rw [List.map_cons, List.append_cons, ih, Law.snoc_iff]
    simp only [hsame, List.mem_cons, forall_eq_or_imp]
    exact and_assoc

/-- Of the two acknowledgements that close a session only the one of the app's
FIN is forwarded, whichever of them goes first. -/
theorem seqLaw_append_both (log : List Event) (toServerFin toClientFin : Option TCPDispatcher.Fin)
    (hserver : ∀ fin, toServerFin = some fin → fin.forward = true)
    (hclient : ∀ fin, toClientFin = some fin → fin.forward = false) :
    Law SeqLaw (log ++ (TCPDispatcher.Fin.both toServerFin toClientFin).map TCPDispatcher.Fin.ackEvent) ↔
      Law SeqLaw log ∧ (toClientFin.isSome = true → ∀ fin, toServerFin = some fin →
        ∀ start, synAckSeq log = some start → fin.fin.ack = nextSeq start log) := by
  rw [seqLaw_append_acks]
  refine and_congr_right fun _ => ?_
  match toServerFin, toClientFin with
  | none, _ => simp [TCPDispatcher.Fin.both]
  | some fin, none => simp [TCPDispatcher.Fin.both]
  | some fin, some own =>
    have hseen : SeqLaw log fin.ackEvent ↔
        ∀ start, synAckSeq log = some start → fin.fin.ack = nextSeq start log := by
      simp [seqLaw_ackEvent, hserver fin rfl]
    have hunseen : SeqLaw log own.ackEvent := by
      simp [seqLaw_ackEvent, hclient own rfl]
    simp only [TCPDispatcher.Fin.both, TCPDispatcher.Fin.sort]
    split <;> simp [hunseen, hseen]

/-- Acknowledgements are no FINs. -/
theorem finSent_append_acks (log : List Event) (fins : List TCPDispatcher.Fin) :
    finSent (log ++ fins.map TCPDispatcher.Fin.ackEvent) = finSent log := by
  simp [finSent, TCPDispatcher.Fin.ackEvent]

/-- Acknowledging one more than the payload is acknowledging one more than the
client counter, once the connection stands. -/
theorem Stream.ack_iff {v : View} (hstream : Stream v) (ack : BitVec 32) :
    (∀ start, synAckSeq v.log = some start → ack = streamSeq start (payloadBytes v.log) + 1) ↔
      (v.connected = true → ack = v.clientSeq + 1) := by
  cases hready : v.connected with
  | false => simp [(hstream.unconnected hready).2]
  | true =>
    obtain ⟨-, start, hstart, hseq⟩ := hstream.connected hready
    simp [hstart, hseq]

namespace Session

/-- What the decoder is assumed to do: the dispatcher's own FIN comes back toward
the client, and the FINs of the app go to the server. -/
def Echoed : Step → Prop
  | .connectable _ feedback => ∃ time, feedback = some (.ToClient, time)
  | .writable _ feedback => ∃ time, feedback = some (.ToClient, time)
  | .readable _ feedback => ∃ time, feedback = some (.ToClient, time)
  | .idle feedback => ∃ time, feedback = some (.ToClient, time)
  | .handleFin _ direction _ => direction = .ToServer
  | _ => True

/-- The decoder hands back the FIN of a close at once, and with the time it came. -/
theorem Echoed.feedback {s : Session} {a : Step} {e : IOException} (hechoed : Echoed a)
    (hcloses : s.closes a = some e) : ∃ time, a.feedback = some (.ToClient, time) := by
  cases a with
  | handleTx data => cases hcloses
  | handleFin segment direction time => cases hcloses
  | onReset => cases hcloses
  | _ => exact hechoed

/-- The app's FIN counts the dispatcher's own one wherever the step acknowledges
it: when it arrives second, it acknowledges the own FIN, and when it is already
there as the own FIN goes out, it acknowledges one more than will have been sent. -/
def FinCounted (s : Session) (a : Step) : Prop :=
  s.connected = true →
  (∀ segment time, a = .handleFin segment .ToServer time → s.tcp.toClientFin.isSome = true →
    segment.ack = s.tcp.clientSeq + 1) ∧
  (∀ fin, s.closes a = some .eof → s.tcp.toServerFin = some fin →
    fin.fin.ack = s.tcp.clientSeq + BitVec.ofNat 32 (min s.tcp.readBuffer.remaining a.flushed) + 1)

/-- A FIN of the app is kept and answers whatever FINs there are then. -/
theorem handleFin_toServer (s : Session) (segment : TcpSegment) (time : BitVec 64) :
    (s.handleFin segment .ToServer time).1 = { s with
      tcp.toServerFin := some { fin := segment, forward := true, time }
      log := s.log ++ (TCPDispatcher.Fin.both (some { fin := segment, forward := true, time })
        s.tcp.toClientFin).map TCPDispatcher.Fin.ackEvent } :=
  s.handleFin_eq segment .ToServer time

/-- The own FIN goes out and comes back: the app's FIN, when there is one, is
acknowledged at once. -/
theorem exceptionRaised_eof (s : Session) (time : BitVec 64) (hfirst : s.tcp.toClientFin = none) :
    s.exceptionRaised .eof (some (.ToClient, time)) = { s with
      key.valid := false
      tcp.toClientFin := some { fin := s.finSegment, forward := false, time }
      log := s.log ++ [.sent .exceptionRaised s.finSegment true] ++ (TCPDispatcher.Fin.both s.tcp.toServerFin
        (some { fin := s.finSegment, forward := false, time })).map TCPDispatcher.Fin.ackEvent } := by
  have hnone : s.closeKey.tcp.toClientFin.isNone = true := Option.isNone_iff_eq_none.mpr hfirst
  simp only [exceptionRaised, hnone, ↓reduceIte, reenter]
  exact handleFin_eq _ _ .ToClient time

/-- A FIN of the app keeps the state of the close. -/
theorem closing_handleFin {s : Session} (hclosing : Closing s.view) (segment : TcpSegment) (time : BitVec 64) :
    Closing (s.handleFin segment .ToServer time).1.view := by
  have hstream := Stream.teardowns hclosing.stream (s.handleFin_teardown segment .ToServer time)
  obtain ⟨-, hown, hlive, -, hclient⟩ := hclosing
  rw [handleFin_toServer] at hstream ⊢
  refine ⟨hstream, ?_, ?_, ?_, hclient⟩
  · exact hown.trans (finSent_append_acks _ _).symm
  · exact fun hvalid => (finSent_append_acks _ _).trans (hlive hvalid)
  · rintro fin ⟨⟩
    rfl

/-- An exception sends the FIN or the reset that the close calls for. -/
theorem closing_exceptionRaised {s : Session} (hclosing : Closing s.view) (hvalid : s.key.valid = true)
    (e : IOException) (time : BitVec 64) : Closing (s.exceptionRaised e (some (.ToClient, time))).view := by
  have hstream := Stream.teardowns hclosing.stream
    (s.exceptionRaised_teardown e (some (.ToClient, time)) hvalid)
  have hfirst : s.tcp.toClientFin = none := hclosing.first_of_valid hvalid
  obtain ⟨-, hown, hlive, hserver, hclient⟩ := hclosing
  cases e with
  | other =>
    refine ⟨hstream, ?_, fun hkey => Bool.noConfusion hkey, hserver, hclient⟩
    refine hown.trans ?_
    simp [exceptionRaised, dispatch, closeKey, rstSegment, buildTcp, TcpPacketBuilder]
  | eof =>
    rw [exceptionRaised_eof s time hfirst] at hstream ⊢
    refine ⟨hstream, ?_, fun hkey => Bool.noConfusion hkey, hserver, ?_⟩
    · refine Eq.trans ?_ (finSent_append_acks _ _).symm
      simp [view, finSegment]
    · rintro fin ⟨⟩
      rfl

/-- The client counter when a closing step sends its FIN. -/
theorem clientSeq_beforeClose {s : Session} {a : Step} (hcloses : s.closes a = some .eof) :
    (s.beforeClose a).tcp.clientSeq =
      s.tcp.clientSeq + BitVec.ofNat 32 (min s.tcp.readBuffer.remaining a.flushed) := by
  have hlist := toList_beforeClose hcloses
  have hmoved : (s.beforeClose a).tcp.clientSeq + BitVec.ofNat 32 (s.beforeClose a).tcp.readBuffer.toList.length =
      s.tcp.clientSeq + BitVec.ofNat 32 s.tcp.readBuffer.toList.length := by
    cases a with
    | readable result feedback => simp [beforeClose, compactRead]
    | idle feedback =>
      simp only [beforeClose]
      split
      · rfl
      · split
        · exact s.clientSeq_dispatchLoop _
        · rfl
    | _ => rfl
  rw [hlist, List.length_drop, ByteBuffer.length_toList] at hmoved
  have hsplit : s.tcp.readBuffer.remaining =
      min s.tcp.readBuffer.remaining a.flushed + (s.tcp.readBuffer.remaining - a.flushed) := by omega
  conv at hmoved => rhs; rw [hsplit, BitVec.ofNat_add, ← BitVec.add_assoc]
  exact (BitVec.add_left_inj _).mp hmoved

/-- Behind a FIN of the server, a FIN of the app is lawful exactly when it acknowledges that
one. -/
theorem seqLaw_handleFin {s : Session} (hclosing : Closing s.view) (segment : TcpSegment) (time : BitVec 64) :
    Law SeqLaw (s.handleFin segment .ToServer time).1.log ↔ Law SeqLaw s.log ∧
      (s.connected = true → s.tcp.toClientFin.isSome = true → segment.ack = s.tcp.clientSeq + 1) := by
  rw [handleFin_toServer]
  refine (seqLaw_append_both s.log (some _) s.tcp.toClientFin (by rintro fin ⟨⟩; rfl)
    hclosing.clientForward).trans ?_
  refine and_congr_right fun _ => Iff.trans (forall_congr' fun hown => ?_) forall_comm
  have hsent : finSent s.log = true := hclosing.own.symm.trans hown
  simp only [Option.some.injEq, forall_eq', nextSeq, hsent, ↓reduceIte]
  exact hclosing.stream.ack_iff segment.ack

/-- Closing the channel keeps the law exactly when no FIN of the app waits for its
acknowledgement, or the one that does already counts the own FIN. -/
theorem seqLaw_exceptionRaised {s : Session} (hclosing : Closing s.view) (hvalid : s.key.valid = true)
    (e : IOException) (time : BitVec 64) :
    Law SeqLaw (s.exceptionRaised e (some (.ToClient, time))).log ↔ Law SeqLaw s.log ∧
      (e = .eof → s.connected = true → ∀ fin, s.tcp.toServerFin = some fin →
        fin.fin.ack = s.tcp.clientSeq + 1) := by
  have hseq : ∀ start, synAckSeq s.log = some start → s.tcp.clientSeq = nextSeq start s.log :=
    fun start => hclosing.clientSeq_eq hvalid
  cases e with
  | other =>
    simp only [exceptionRaised, dispatch, Law.snoc_iff, reduceCtorEq, false_implies, and_true]
    exact and_iff_left hseq
  | eof =>
    rw [exceptionRaised_eof s time (hclosing.first_of_valid hvalid)]
    refine (seqLaw_append_both _ s.tcp.toServerFin (some _) hclosing.serverForward
      (by rintro fin ⟨⟩; rfl)).trans ?_
    rw [Law.snoc_iff]
    have hfin : SeqLaw s.log (.sent .exceptionRaised s.finSegment true) := hseq
    have hsyn : synAckSeq (s.log ++ [.sent .exceptionRaised s.finSegment true]) = synAckSeq s.log := by simp
    have hnext : ∀ start, nextSeq start (s.log ++ [.sent .exceptionRaised s.finSegment true]) =
        streamSeq start (payloadBytes s.log) + 1 := by
      simp [nextSeq, finSegment, buildTcp, TcpPacketBuilder]
    simp only [hfin, and_true, Option.isSome_some, true_implies, hsyn, hnext]
    refine and_congr_right fun _ => ?_
    have hcounted := fun fin : TCPDispatcher.Fin => hclosing.stream.ack_iff fin.fin.ack
    exact ⟨fun h hready fin hfin => (hcounted fin).mp (h fin hfin) hready,
      fun h fin hfin => (hcounted fin).mpr fun hready => h hready fin hfin⟩

/-- Every step whose FIN is handed back keeps the state of the close. -/
theorem closing_step {s next : Session} {a : Step} (hclosing : Closing s.view) (hechoed : Echoed a)
    (hstep : s.step a = .ok next) : Closing next.view := by
  obtain ⟨segment, direction, time, rfl, rfl⟩ | ⟨-, hending⟩ := step_cases hstep
  · cases hechoed
    exact closing_handleFin hclosing segment time
  · cases hending with
    | effects hcloses hquiet hfits htx => exact hclosing.effects hquiet
    | closed e hcloses hquiet hfits htx hnext =>
      obtain ⟨time, hfeedback⟩ := hechoed.feedback hcloses
      rw [hnext, hfeedback]
      exact closing_exceptionRaised (hclosing.effects hquiet) (valid_beforeClose hcloses) e time

/-- One step keeps the law exactly when it meets the condition. -/
theorem seqLaw_step {s next : Session} {a : Step} (hclosing : Closing s.view) (hechoed : Echoed a)
    (hstep : s.step a = .ok next) : Law SeqLaw next.log ↔ Law SeqLaw s.log ∧ FinCounted s a := by
  obtain ⟨segment, direction, time, rfl, rfl⟩ | ⟨hother, hending⟩ := step_cases hstep
  · cases hechoed
    rw [seqLaw_handleFin hclosing]
    refine and_congr_right fun _ => forall_congr' fun hready => ?_
    simp [closes]
  · cases hending with
    | effects hcloses hquiet hfits htx =>
      have hlog := hclosing.seqLaw_effects hquiet
      simp only [view_log] at hlog
      simp [hlog, FinCounted, hcloses, hother]
    | closed e hcloses hquiet hfits htx hnext =>
      obtain ⟨time, hfeedback⟩ := hechoed.feedback hcloses
      obtain ⟨readBuffer, clientSeq, log, hframe⟩ := s.beforeClose_frame a
      have hsame : (s.beforeClose a).connected = s.connected ∧
          (s.beforeClose a).tcp.toServerFin = s.tcp.toServerFin := by
        rw [hframe]
        exact ⟨rfl, rfl⟩
      have hlog := hclosing.seqLaw_effects hquiet
      simp only [view_log] at hlog
      rw [hnext, hfeedback, seqLaw_exceptionRaised (hclosing.effects hquiet) (valid_beforeClose hcloses),
        hlog, hsame.1, hsame.2]
      refine and_congr_right fun _ => ?_
      cases e with
      | other => simp [FinCounted, hcloses, hother]
      | eof => simp [FinCounted, hcloses, hother, clientSeq_beforeClose hcloses]

variable {sessionKey : TcpSessionKey} {sync : TcpSegment} {identify : BitVec 32}
  {steps : List Step} {s : Session}

/-- A run is lawful exactly when every FIN of the app in it is. -/
theorem run_seqLaw (hechoed : ∀ a ∈ steps, Echoed a)
    (hrun : (Session.new sessionKey sync identify).run steps = .ok s) :
    Law SeqLaw s.log ↔ Along step FinCounted (Session.new sessionKey sync identify) steps := by
  have hiff := run_good_iff (I := fun s => Closing s.view) (G := fun s => Law SeqLaw s.log)
    (fun _ _ _ ha hclosing => closing_step hclosing ha) (fun _ _ _ ha hclosing => seqLaw_step hclosing ha)
    hechoed (Closing.new sessionKey sync identify) hrun
  rw [hiff]
  exact and_iff_right (Law.nil _)

/-- Over any run in which the own FIN comes back from the decoder, every segment
forwarded after the SYN|ACK is numbered by the payload and the own FIN before it
exactly when every FIN of the app that gets acknowledged counts the own FIN. -/
theorem teardown_sequence_iff (hechoed : ∀ a ∈ steps, Echoed a)
    (hrun : (Session.new sessionKey sync identify).run steps = .ok s) :
    (∀ before site segment after, s.log = before ++ .sent site segment true :: after →
      ∀ start, synAckSeq before = some start → segment.seq =
        start + 1 + BitVec.ofNat 32 (payloadBytes before).length + if finSent before then 1 else 0) ↔
    Along step FinCounted (Session.new sessionKey sync identify) steps := by
  rw [← run_seqLaw hechoed hrun]
  constructor
  · intro hseq before event after hlog
    cases event with
    | sent site segment forward =>
      cases forward with
      | true => exact hseq before site segment after hlog
      | false => trivial
    | _ => trivial
  · intro hlaw before site segment after hlog
    exact hlaw before _ after hlog

/-- The server closes first, and the app acknowledges its FIN. -/
theorem teardown_sequence_iff_server_first :
    ∃ s, (Session.new ⟨⟨1, 40000⟩, ⟨2, 80⟩⟩ (TcpPacketBuilder ⟨1, 40000⟩ ⟨2, 80⟩) 7).run
        [.connectable .finished (some (.ToClient, 0)), .readable .eof (some (.ToClient, 0)),
          .handleFin { TcpPacketBuilder ⟨1, 40000⟩ ⟨2, 80⟩ with seq := 1, ack := 9, isFin := true } .ToServer 1] =
        .ok s ∧
      ((∀ before site segment after, s.log = before ++ .sent site segment true :: after →
        ∀ start, synAckSeq before = some start → segment.seq =
          start + 1 + BitVec.ofNat 32 (payloadBytes before).length + if finSent before then 1 else 0) ↔
      Along step FinCounted (Session.new ⟨⟨1, 40000⟩, ⟨2, 80⟩⟩ (TcpPacketBuilder ⟨1, 40000⟩ ⟨2, 80⟩) 7)
        [.connectable .finished (some (.ToClient, 0)), .readable .eof (some (.ToClient, 0)),
          .handleFin { TcpPacketBuilder ⟨1, 40000⟩ ⟨2, 80⟩ with seq := 1, ack := 9, isFin := true }
            .ToServer 1]) := by
  have hfresh := Fresh.finishConnect ⟨⟨1, 40000⟩, ⟨2, 80⟩⟩ (TcpPacketBuilder ⟨1, 40000⟩ ⟨2, 80⟩) 7
  have hread := hfresh.room.step_readable rfl rfl rfl .eof (some (.ToClient, 0))
  obtain ⟨s, hrun⟩ : ∃ s, (Session.new ⟨⟨1, 40000⟩, ⟨2, 80⟩⟩ (TcpPacketBuilder ⟨1, 40000⟩ ⟨2, 80⟩) 7).run
      [.connectable .finished (some (.ToClient, 0)), .readable .eof (some (.ToClient, 0)),
        .handleFin { TcpPacketBuilder ⟨1, 40000⟩ ⟨2, 80⟩ with seq := 1, ack := 9, isFin := true } .ToServer 1] =
      .ok s :=
    ⟨_, run_cons_ok.mpr ⟨_, rfl, run_cons_ok.mpr ⟨_, hread, run_cons_ok.mpr ⟨_, rfl, rfl⟩⟩⟩⟩
  exact ⟨s, hrun, teardown_sequence_iff (by simp [Echoed]) hrun⟩

/-- The idle check of a session that has nothing to send and remembers the app's FIN. -/
theorem step_idle_fin {s : Session} (hvalid : s.key.valid = true) (hreset : s.tcp.reset = false)
    (hread : s.tcp.readBuffer.toList = []) (hwrite : s.tcp.writeBuffer.toList = [])
    (hfin : s.tcp.toServerFin.isSome = true) (feedback : Feedback) :
    s.step (.idle feedback) = .ok (s.exceptionRaised .eof feedback) := by
  rw [ByteBuffer.toList_eq_nil_iff] at hread hwrite
  simp [step, hvalid, checkRegisteredKey, hreset, hread, hwrite, hfin]

/-- The app closes an idle session: the acknowledgement of its FIN repeats the
number that the own FIN has just used. -/
theorem Fresh.idle_after_fin {s : Session} (hfresh : Fresh s) (fin : TcpSegment) :
    ∃ final segment rest, s.run [.handleFin fin .ToServer 0, .idle (some (.ToClient, 1))] = .ok final ∧
      final.log = s.log ++ [.sent .exceptionRaised s.finSegment true] ++ .sent .finAck segment true :: rest ∧
      segment.seq = fin.ack := by
  have hremember : (s.handleFin fin .ToServer 0).1 = s.rememberFin fin .ToServer 0 := by
    rw [handleFin_toServer, hfresh.first]
    simp [TCPDispatcher.Fin.both, rememberFin]
  have hidle := step_idle_fin (s := s.rememberFin fin .ToServer 0) hfresh.valid hfresh.reset hfresh.empty
    hfresh.drained rfl (some (.ToClient, 1))
  rw [exceptionRaised_eof (s.rememberFin fin .ToServer 0) 1 hfresh.first] at hidle
  refine ⟨_, TCPDispatcher.Fin.ackSegment { fin, forward := true, time := 0 },
    [TCPDispatcher.Fin.ackEvent { fin := s.finSegment, forward := false, time := 1 }],
    run_cons_ok.mpr ⟨_, congrArg Except.ok hremember, run_cons_ok.mpr ⟨_, hidle, rfl⟩⟩, ?_, rfl⟩
  have hsort : TCPDispatcher.Fin.both (some { fin, forward := true, time := 0 })
      (some { fin := s.finSegment, forward := false, time := 1 }) =
      [{ fin, forward := true, time := 0 }, { fin := s.finSegment, forward := false, time := 1 }] :=
    if_neg (by simp [TCPDispatcher.Fin.compareTo])
  exact congrArg (fun fins => s.log ++ [.sent .exceptionRaised s.finSegment true] ++
    fins.map TCPDispatcher.Fin.ackEvent) hsort

/-- The app closes first: its FIN is acknowledged under the sequence number of the
own FIN, one less than the next one. -/
theorem app_closes_first :
    ∃ (s : Session) (before : List Event) (segment : TcpSegment) (after : List Event),
      (Session.new ⟨⟨1, 40000⟩, ⟨2, 80⟩⟩ (TcpPacketBuilder ⟨1, 40000⟩ ⟨2, 80⟩) 7).run
        [.connectable .finished (some (.ToClient, 0)),
          .handleFin { TcpPacketBuilder ⟨1, 40000⟩ ⟨2, 80⟩ with seq := 1, ack := 8, isFin := true } .ToServer 0,
          .idle (some (.ToClient, 1))] = .ok s ∧
      s.log = before ++ .sent .finAck segment true :: after ∧ synAckSeq before = some 7 ∧
      segment.seq ≠ 7 + 1 + BitVec.ofNat 32 (payloadBytes before).length + if finSent before then 1 else 0 := by
  have hfresh := Fresh.finishConnect ⟨⟨1, 40000⟩, ⟨2, 80⟩⟩ (TcpPacketBuilder ⟨1, 40000⟩ ⟨2, 80⟩) 7
  obtain ⟨s, segment, rest, hrun, hlog, hseq⟩ := hfresh.idle_after_fin
    { TcpPacketBuilder ⟨1, 40000⟩ ⟨2, 80⟩ with seq := 1, ack := 8, isFin := true }
  refine ⟨s, _, segment, rest, run_cons_ok.mpr ⟨_, rfl, hrun⟩, hlog, rfl, ?_⟩
  rw [hseq]
  decide

end Session

end inspector.vpn
