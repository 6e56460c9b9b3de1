import Inspector.Vpn.Invariant

open nio Relation machine

namespace inspector.vpn

/-- The sequence number right after `sent` payload bytes, when the SYN|ACK had
sequence number `start`. -/
def streamSeq (start : BitVec 32) (sent : List UInt8) : BitVec 32 :=
  start + 1 + BitVec.ofNat 32 sent.length

/-- The number of the stream moves on by the bytes that are added to it. -/
theorem streamSeq_append (start : BitVec 32) (sent data : List UInt8) :
    streamSeq start (sent ++ data) = streamSeq start sent + BitVec.ofNat 32 data.length := by
  simp only [streamSeq, List.length_append, BitVec.ofNat_add, BitVec.add_assoc]

/-- What every segment with a payload satisfies: it is forwarded, it is numbered
by the payload before it, and it is pushed exactly when it is the last of what has
been read. -/
def DataLaw (before : List Event) : Event → Prop
  | .sent _ segment forward => segment.data ≠ [] → forward = true ∧
    ∃ start, synAckSeq before = some start ∧ segment.seq = streamSeq start (payloadBytes before) ∧
      (segment.isPsh = true ↔ payloadBytes before ++ segment.data = readBytes before)
  | _ => True

/-- The downstream direction: nothing read is lost, and the client counter
follows the payload once the connection stands. -/
structure Stream (v : View) : Prop where
  conserved : payloadBytes v.log ++ v.toApp = readBytes v.log
  unconnected : v.connected = false → readBytes v.log = [] ∧ synAckSeq v.log = none
  connected : v.connected = true → v.key.interestOps.connect = false ∧
    ∃ start, synAckSeq v.log = some start ∧ v.clientSeq = streamSeq start (payloadBytes v.log)
  law : Law DataLaw v.log

/-- A new session has neither read nor sent anything. -/
theorem Stream.new (sessionKey : TcpSessionKey) (sync : TcpSegment) (identify : BitVec 32) :
    Stream (Session.new sessionKey sync identify).view where
  conserved := by
    rw [Session.view, Session.new, ByteBuffer.toList_exhausted]
    rfl
  unconnected := fun _ => ⟨rfl, rfl⟩
  connected := fun hconnected => Bool.noConfusion hconnected
  law := Law.nil _

/-- There are bytes for the app only behind the connection. -/
theorem Stream.connected_of_queue {v : View} (hstream : Stream v) (hqueue : v.toApp ≠ []) :
    v.connected = true := by
  by_contra hnot
  obtain ⟨hread, -⟩ := hstream.unconnected (by simpa using hnot)
  have hconserved := hstream.conserved
  rw [hread] at hconserved
  exact hqueue (List.append_eq_nil_iff.mp hconserved).2

/-- A key that waits for its connection is not connected. -/
theorem Stream.unconnected_of_interest {v : View} (hstream : Stream v) (hinterest : v.key.interestOps.connect) :
    v.connected = false := by
  by_contra hnot
  have hcleared := (hstream.connected (by simpa using hnot)).1
  rw [hinterest] at hcleared
  cases hcleared

/-- An event without payload that reads nothing and is not the SYN|ACK leaves the
downstream direction alone. -/
theorem Stream.silent {v : View} (hstream : Stream v) (event : Event) (hread : event.readData = [])
    (hpayload : event.payload = []) (hsyn : event.synAck = none) :
    Stream { v with log := v.log ++ [event] } where
  conserved := by
    simpa only [readBytes_snoc, payloadBytes_snoc, hread, hpayload, List.append_nil] using hstream.conserved
  unconnected := by
    simpa only [readBytes_snoc, synAckSeq_snoc, hread, hsyn, List.append_nil, Option.or_none]
      using hstream.unconnected
  connected := by
    simpa only [payloadBytes_snoc, synAckSeq_snoc, hpayload, hsyn, List.append_nil, Option.or_none]
      using hstream.connected
  law := by
    rw [Law.snoc_iff]
    refine ⟨hstream.law, ?_⟩
    cases event with
    | sent site segment forward => exact fun hdata => absurd hpayload hdata
    | _ => trivial

/-- Sending the next chunk keeps the law: the chunk is numbered by the payload
before it, and pushed when nothing is left behind it. -/
theorem Stream.chunk {v : View} (hstream : Stream v) {data rest : List UInt8} (hdata : data ≠ [])
    (hqueue : v.toApp = data ++ rest) :
    Stream { v with
      toApp := rest
      clientSeq := v.clientSeq + BitVec.ofNat 32 data.length
      log := v.log ++ [.sent .dispatchReadBuffer { v.segment with isPsh := rest.isEmpty, data } true] } := by
  have hready := hstream.connected_of_queue (by simp [hqueue, hdata])
  obtain ⟨hconserved, hunconnected, hconnected, hlaw⟩ := hstream
  rw [hqueue] at hconserved
  obtain ⟨hinterest, start, hstart, hseq⟩ := hconnected hready
  refine ⟨by simpa using hconserved, by simp [hready], fun _ => ⟨hinterest, start, by simp [hstart], ?_⟩, ?_⟩
  · simp only [payloadBytes_snoc, Event.payload, streamSeq_append, hseq]
  · rw [Law.snoc_iff]
    refine ⟨hlaw, fun _ => ⟨rfl, start, hstart, hseq, ?_⟩⟩
    simp only [← hconserved]
    simp

/-- The SYN|ACK starts the numbering; it can only be sent before anything is read. -/
theorem Stream.connect {v : View} (hstream : Stream v) (hinterest : v.key.interestOps.connect) :
    Stream { v with
      connected := true
      clientSeq := v.clientSeq + 1
      serverSeq := v.serverSeq + 1
      key.interestOps := { read := true, write := false, connect := false }
      log := v.log ++
        [.sent .processConnectableKey { v.segment with ack := v.serverSeq + 1, isSyn := true } true] } := by
  have hready := hstream.unconnected_of_interest hinterest
  obtain ⟨hconserved, hunconnected, hconnected, hlaw⟩ := hstream
  obtain ⟨hread, hnone⟩ := hunconnected hready
  have hpayload : payloadBytes v.log = [] := by
    rw [hread] at hconserved
    exact (List.append_eq_nil_iff.mp hconserved).1
  refine ⟨by simpa using hconserved, by simp, fun _ => ⟨rfl, v.clientSeq, ?_, ?_⟩, ?_⟩
  · simp [hnone]
  · simp [hpayload, streamSeq]
  · simpa [DataLaw] using hlaw

/-- Each effect keeps the bytes for the app and the numbers of the segments in step. -/
theorem Stream.effect {v w : View} (hstream : Stream v) (heffect : Effect v w) : Stream w := by
  cases heffect with
  | accept data rest hvalid hready hqueue =>
    have h := hstream.silent (.wrote data) rfl rfl rfl
    exact ⟨h.conserved, h.unconnected, h.connected, h.law⟩
  | interest write => exact ⟨hstream.conserved, hstream.unconnected, hstream.connected, hstream.law⟩
  | acknowledge hvalid hready => exact hstream.silent _ rfl rfl rfl
  | receive data hvalid hready =>
    obtain ⟨hconserved, hunconnected, hconnected, hlaw⟩ := hstream
    exact ⟨by simp [← hconserved], by simp [hready], by simpa using hconnected, by simpa [DataLaw] using hlaw⟩
  | chunk data rest hvalid hdata hqueue => exact hstream.chunk hdata hqueue
  | connect hvalid hinterest => exact hstream.connect hinterest
  | tx data =>
    have h := hstream.silent (.tx data) rfl rfl rfl
    exact ⟨h.conserved, h.unconnected, h.connected, h.law⟩
  | reset => exact ⟨hstream.conserved, hstream.unconnected, hstream.connected, hstream.law⟩

/-- A teardown sends no data and changes no number of the stream. -/
theorem Stream.teardown {v w : View} (hstream : Stream v) (hteardown : Teardown v w) : Stream w := by
  cases hteardown with
  | ack fin hfin => exact hstream.silent _ rfl rfl rfl
  | fin hvalid hfirst =>
    have h := hstream.silent (.sent .exceptionRaised { v.segment with isFin := true } true) rfl rfl rfl
    exact ⟨h.conserved, h.unconnected, h.connected, h.law⟩
  | rst hvalid =>
    have h := hstream.silent (.sent .exceptionRaised { v.segment with isRst := true } true) rfl rfl rfl
    exact ⟨h.conserved, h.unconnected, h.connected, h.law⟩
  | _ => exact ⟨hstream.conserved, hstream.unconnected, hstream.connected, hstream.law⟩

/-- The same for a series of effects. -/
theorem Stream.effects {v w : View} (hstream : Stream v) (heffects : ReflTransGen Effect v w) : Stream w :=
  invariant_of_reflTransGen (fun _ _ h => h.effect) hstream heffects

/-- The same for a series of steps of the teardown. -/
theorem Stream.teardowns {v w : View} (hstream : Stream v) (hteardowns : ReflTransGen Teardown v w) : Stream w :=
  invariant_of_reflTransGen (fun _ _ h => h.teardown) hstream hteardowns

/-- So every step of the dispatcher keeps the stream. -/
theorem Stream.step {s next : Session} {a : Session.Step} (hstream : Stream s.view)
    (hstep : s.step a = .ok next) : Stream next.view :=
  Session.step_invariant (fun _ _ h => h.effect) (fun _ _ h => h.teardown) hstream hstep

namespace Session

/-- The read buffer is never full when a read begins. -/
theorem Room.compact_hasRemaining {s : Session} (hroom : Room s) :
    s.tcp.readBuffer.compact.hasRemaining = true := by
  have hbound := hroom.readLength
  have hcapacity := hroom.readCapacity
  have hremaining := s.tcp.readBuffer.remaining_compact
  simp only [BUFFER_SIZE] at hbound hcapacity
  simp only [ByteBuffer.remaining] at hremaining
  simp only [ByteBuffer.hasRemaining, decide_eq_true_eq]
  omega

/-- No step takes more from the read buffer than there is in it. -/
theorem Room.step_ne_underflow {s : Session} (hroom : Room s) (a : Step) :
    s.step a ≠ .error .BufferUnderflowException := by
  intro hstep
  cases step_failure hstep with
  | underflow hfull =>
    rw [hroom.compact_hasRemaining] at hfull
    cases hfull

/-- A readable step of a connected session, once its buffer has room. -/
theorem Room.step_readable {s : Session} (hroom : Room s) (hvalid : s.key.valid = true)
    (hinterest : s.key.interestOps.read = true) (hconnected : s.connected = true)
    (result : ReadResult) (feedback : Feedback) :
    s.step (.readable result feedback) = .ok (match result with
      | .offered data => (s.storeRead data).dispatchReadBuffer
      | .eof => s.compactRead.exceptionRaised .eof feedback
      | .failed => s.compactRead.exceptionRaised .other feedback) := by
  simp only [Session.step, hvalid, hinterest, processReadableKey, hroom.compact_hasRemaining, hconnected]
  cases result <;> rfl

/-- What the channel gives to a step: a readable key takes what is offered, up to the free
space of the buffer. -/
def offered (s : Session) : Step → List UInt8
  | .readable (.offered data) _ =>
    if s.key.valid && s.key.interestOps.read then data.take (BUFFER_SIZE - s.tcp.readBuffer.remaining) else []
  | _ => []

/-- What the channel gives along a run. -/
def offeredBytes (s : Session) : List Step → List UInt8
  | [] => []
  | a :: rest =>
    s.offered a ++ match s.step a with
      | .ok next => next.offeredBytes rest
      | .error _ => []

/-- An exception reads nothing from the server. -/
theorem readBytes_exceptionRaised {s : Session} (hvalid : s.key.valid = true) (e : IOException) (feedback : Feedback) :
    readBytes (s.exceptionRaised e feedback).log = readBytes s.log :=
  flatMap_teardowns (fun _ _ _ => rfl) (s.exceptionRaised_teardown e feedback hvalid)

/-- Sending what was read reads nothing new. -/
theorem readBytes_dispatchReadBuffer (s : Session) : readBytes s.dispatchReadBuffer.log = readBytes s.log :=
  flatMap_dispatchLoop (fun _ _ _ => rfl) s _

/-- A writable key reads nothing. -/
theorem readBytes_writable {s next : Session} (hvalid : s.key.valid = true) {result : WriteResult} {feedback : Feedback}
    (hstep : handle feedback (s.processWritableKey result) = .ok next) : readBytes next.log = readBytes s.log := by
  unfold processWritableKey at hstep
  split at hstep
  · cases hstep
  · cases result with
    | failed | eof =>
      cases hstep
      exact readBytes_exceptionRaised hvalid _ feedback
    | accepted count =>
      dsimp only at hstep
      split at hstep
      · cases hstep
        simp [setWriteInterest, acceptWrite]
      · cases hstep
        simp [readBytes, setWriteInterest, acceptWrite, dispatch]

/-- A readable key reads what the server offers, as far as the buffer has room for it. -/
theorem Room.readBytes_readable {s next : Session} (hroom : Room s) (hvalid : s.key.valid = true) {result : ReadResult}
    {feedback : Feedback} (hstep : handle feedback (s.processReadableKey result) = .ok next) :
    readBytes next.log = readBytes s.log ++ match result with
      | .offered data => data.take (BUFFER_SIZE - s.tcp.readBuffer.remaining)
      | _ => [] := by
  unfold processReadableKey at hstep
  split at hstep
  · cases hstep
  · split at hstep
    · cases hstep
    · cases result with
      | failed | eof =>
        cases hstep
        rw [List.append_nil]
        exact readBytes_exceptionRaised (s := s.compactRead) hvalid _ feedback
      | offered data =>
        cases hstep
        have hlog : (s.storeRead data).log = s.log ++ [.read (data.take s.tcp.readBuffer.compact.remaining)] := rfl
        rw [readBytes_dispatchReadBuffer, hlog, readBytes_snoc, Event.readData, ByteBuffer.remaining_compact,
          ByteBuffer.length_toList, hroom.readCapacity]

/-- A turn without a ready key reads nothing. -/
theorem readBytes_idle {s next : Session} (hvalid : s.key.valid = true) {feedback : Feedback}
    (hstep : s.checkRegisteredKey feedback = .ok next) : readBytes next.log = readBytes s.log := by
  have hflush : readBytes (if s.tcp.readBuffer.hasRemaining then s.dispatchReadBuffer else s).log =
    readBytes s.log := by
    split
    · exact s.readBytes_dispatchReadBuffer
    · rfl
  have hkey : (if s.tcp.readBuffer.hasRemaining then s.dispatchReadBuffer else s).key = s.key := by
    obtain ⟨readBuffer, clientSeq, log, hframe⟩ := s.flush_frame
    rw [hframe]
  unfold checkRegisteredKey at hstep
  dsimp only at hstep
  generalize (if s.tcp.readBuffer.hasRemaining then s.dispatchReadBuffer else s) = flushed at hstep hflush hkey
  split at hstep
  · cases hstep
    exact readBytes_exceptionRaised hvalid _ feedback
  · split at hstep
    · split at hstep
      · cases hstep
        exact hflush
      · cases hstep
    · split at hstep
      · cases hstep
        exact (readBytes_exceptionRaised (hkey ▸ hvalid) _ feedback).trans hflush
      · cases hstep
        exact hflush

/-- A step reads exactly what the channel gives to it. -/
theorem Room.readBytes_step {s next : Session} (hroom : Room s) {a : Step} (hstep : s.step a = .ok next) :
    readBytes next.log = readBytes s.log ++ s.offered a := by
  cases a with
  | connectable result feedback =>
    rw [Session.step] at hstep
    split at hstep
    · rename_i hready
      have hvalid := (Bool.and_eq_true_iff.mp hready).1
      cases result with
      | finished =>
        cases hstep
        simp [finishConnect, dispatch, offered]
      | pending | refused =>
        cases hstep
        exact (readBytes_exceptionRaised hvalid _ feedback).trans (List.append_nil _).symm
    · cases hstep
      exact (List.append_nil _).symm
  | writable result feedback =>
    refine Eq.trans ?_ (List.append_nil _).symm
    rw [Session.step] at hstep
    split at hstep
    · rename_i hready
      exact readBytes_writable (Bool.and_eq_true_iff.mp hready).1 hstep
    · cases hstep
      rfl
  | readable result feedback =>
    rw [Session.step] at hstep
    split at hstep
    · rename_i hready
      rw [hroom.readBytes_readable (Bool.and_eq_true_iff.mp hready).1 hstep]
      cases result with
      | offered data => rw [offered, if_pos hready]
      | failed | eof => rfl
    · rename_i hready
      cases hstep
      cases result with
      | offered data => rw [offered, if_neg hready, List.append_nil]
      | failed | eof => exact (List.append_nil _).symm
  | idle feedback =>
    refine Eq.trans ?_ (List.append_nil _).symm
    rw [Session.step] at hstep
    split at hstep
    · rename_i hvalid
      exact readBytes_idle hvalid hstep
    · cases hstep
      rfl
  | handleTx data =>
    refine Eq.trans ?_ (List.append_nil _).symm
    simp only [Session.step, handleTx] at hstep
    split at hstep
    · cases hstep
    · cases hstep
      simp
  | handleFin segment direction time =>
    cases hstep
    have hsame : readBytes (s.handleFin segment direction time).1.log = readBytes s.log :=
      flatMap_teardowns (fun _ _ _ => rfl) (s.handleFin_teardown segment direction time)
    exact hsame.trans (List.append_nil _).symm
  | onReset =>
    cases hstep
    exact (List.append_nil _).symm

/-- A connected session with nothing in its buffers, as it is right after the connect. -/
structure Fresh (s : Session) : Prop where
  room : Room s
  valid : s.key.valid = true
  interest : s.key.interestOps.read = true
  connected : s.connected = true
  first : s.tcp.toClientFin = none
  reset : s.tcp.reset = false
  empty : s.tcp.readBuffer.toList = []
  drained : s.tcp.writeBuffer.toList = []

/-- The connection reads nothing either. -/
theorem Fresh.finishConnect (sessionKey : TcpSessionKey) (sync : TcpSegment) (identify : BitVec 32) :
    Fresh (Session.new sessionKey sync identify).finishConnect where
  room := (Room.new sessionKey sync identify).step (a := .connectable .finished none) rfl
  valid := rfl
  interest := rfl
  connected := rfl
  first := rfl
  reset := rfl
  empty := by rw [Session.finishConnect, Session.new, dispatch, ByteBuffer.toList_exhausted]
  drained := by rw [Session.finishConnect, Session.new, dispatch, ByteBuffer.toList_exhausted]

variable {sessionKey : TcpSessionKey} {sync : TcpSegment} {identify : BitVec 32}
  {steps : List Step} {s : Session}

/-- In every state that a run reaches, the buffers have their sizes. -/
theorem run_room (hrun : (Session.new sessionKey sync identify).run steps = .ok s) : Room s :=
  run_invariant (fun _ _ _ hroom => hroom.step) (Room.new sessionKey sync identify) hrun

/-- In every state that a run reaches, the stream is intact. -/
theorem run_stream (hrun : (Session.new sessionKey sync identify).run steps = .ok s) : Stream s.view :=
  run_invariant (I := fun s => Stream s.view) (fun _ _ _ hstream => hstream.step)
    (Stream.new sessionKey sync identify) hrun

/-- A run reads exactly what the channel gives along it. -/
theorem Room.readBytes_run {s next : Session} (hroom : Room s) (hrun : s.run steps = .ok next) :
    readBytes next.log = readBytes s.log ++ s.offeredBytes steps := by
  induction steps generalizing s with
  | nil =>
    cases hrun
    exact (List.append_nil _).symm
  | cons a rest ih =>
    obtain ⟨middle, hstep, hrest⟩ := run_cons_ok.mp hrun
    rw [ih (hroom.step hstep) hrest, hroom.readBytes_step hstep, offeredBytes, hstep, List.append_assoc]

/-- Server-to-app integrity, in every state any run reaches: the payloads sent and
the bytes still buffered are exactly what was read, and that is what the channel gave to the
readable steps, up to the free space of the buffer at each of them; each payload is numbered by the
ones before it and pushed exactly when it empties the buffer; and no next step can
find the buffer full. -/
theorem stream_integrity (hrun : (Session.new sessionKey sync identify).run steps = .ok s) :
    payloadBytes s.log ++ s.tcp.readBuffer.toList = readBytes s.log ∧
    readBytes s.log = (Session.new sessionKey sync identify).offeredBytes steps ∧
    (∀ before site segment forward after, s.log = before ++ .sent site segment forward :: after →
      segment.data ≠ [] → forward = true ∧
        ∃ start, synAckSeq before = some start ∧
          segment.seq = start + 1 + BitVec.ofNat 32 (payloadBytes before).length ∧
          (segment.isPsh = true ↔ payloadBytes before ++ segment.data = readBytes before)) ∧
    ∀ a, s.step a ≠ .error .BufferUnderflowException := by
  have hstream := run_stream hrun
  refine ⟨hstream.conserved, (Room.new sessionKey sync identify).readBytes_run hrun, ?_,
    (run_room hrun).step_ne_underflow⟩
  intro before site segment forward after hlog
  exact hstream.law before _ after hlog

/-- Three bytes are read and sent to the app at once. -/
theorem stream_integrity_three_bytes :
    ∃ s, (Session.new ⟨⟨1, 40000⟩, ⟨2, 80⟩⟩ (TcpPacketBuilder ⟨1, 40000⟩ ⟨2, 80⟩) 7).run
        [.connectable .finished none, .readable (.offered [1, 2, 3]) none] = .ok s ∧
      payloadBytes s.log ++ s.tcp.readBuffer.toList = [1, 2, 3] ∧ readBytes s.log = [1, 2, 3] ∧
      (∀ before site segment forward after, s.log = before ++ .sent site segment forward :: after →
        segment.data ≠ [] → forward = true ∧
          ∃ start, synAckSeq before = some start ∧
            segment.seq = start + 1 + BitVec.ofNat 32 (payloadBytes before).length ∧
            (segment.isPsh = true ↔ payloadBytes before ++ segment.data = readBytes before)) ∧
      ∀ a, s.step a ≠ .error .BufferUnderflowException := by
  have hfresh := Fresh.finishConnect ⟨⟨1, 40000⟩, ⟨2, 80⟩⟩ (TcpPacketBuilder ⟨1, 40000⟩ ⟨2, 80⟩) 7
  have hread := hfresh.room.step_readable rfl rfl rfl (.offered [1, 2, 3]) none
  obtain ⟨s, hrun⟩ : ∃ s, (Session.new ⟨⟨1, 40000⟩, ⟨2, 80⟩⟩ (TcpPacketBuilder ⟨1, 40000⟩ ⟨2, 80⟩) 7).run
      [.connectable .finished none, .readable (.offered [1, 2, 3]) none] = .ok s :=
    ⟨_, run_cons_ok.mpr ⟨_, rfl, run_cons_ok.mpr ⟨_, hread, rfl⟩⟩⟩
  obtain ⟨hconserved, hoffered, hlaw, hroom⟩ := stream_integrity hrun
  have hconnect : (Session.new ⟨⟨1, 40000⟩, ⟨2, 80⟩⟩ (TcpPacketBuilder ⟨1, 40000⟩ ⟨2, 80⟩) 7).step
    (.connectable .finished none) = .ok (Session.new ⟨⟨1, 40000⟩, ⟨2, 80⟩⟩ _ 7).finishConnect := rfl
  have hempty := (ByteBuffer.length_toList _).symm.trans (congrArg List.length hfresh.empty)
  have hgiven : readBytes s.log = [1, 2, 3] := by
    rw [hoffered]
    simp only [offeredBytes, hconnect, hread, offered, hempty]
    rfl
  exact ⟨s, hrun, hconserved.trans hgiven, hgiven, hlaw, hroom⟩

end Session

end inspector.vpn
