import Inspector.Vpn.Stream

open nio Relation machine

namespace inspector.vpn

/-- What a FIN toward the app must satisfy: every byte read has been sent before
it, under an earlier sequence number. -/
def FinLaw (before : List Event) : Event → Prop
  | .sent .exceptionRaised segment _ => segment.isFin = true →
    payloadBytes before = readBytes before ∧
    ∀ start, synAckSeq before = some start → segment.seq = streamSeq start (readBytes before)
  | _ => True

/-- A FIN built from the counters is preceded by everything read exactly when the
queue toward the app is empty. -/
theorem Stream.finLaw_iff {v : View} (hstream : Stream v) (forward : Bool) :
    FinLaw v.log (.sent .exceptionRaised { v.segment with isFin := true } forward) ↔ v.toApp = [] := by
  have hconserved := hstream.conserved
  constructor
  · intro hlaw
    rw [← (hlaw rfl).1] at hconserved
    exact List.append_right_eq_self.mp hconserved
  · intro hempty _
    rw [hempty, List.append_nil] at hconserved
    refine ⟨hconserved, fun start hstart => ?_⟩
    cases hready : v.connected with
    | false =>
      rw [(hstream.unconnected hready).2] at hstart
      cases hstart
    | true =>
      obtain ⟨-, actual, hactual, hseq⟩ := hstream.connected hready
      rw [hactual] at hstart
      cases hstart
      rw [← hconserved]
      exact hseq

theorem finLaw_effect {v w : View} (heffect : Effect v w) : Law FinLaw w.log ↔ Law FinLaw v.log := by
  cases heffect <;> simp [FinLaw]

theorem finLaw_effects {v w : View} (heffects : ReflTransGen Effect v w) :
    Law FinLaw w.log ↔ Law FinLaw v.log := by
  induction heffects with
  | refl => exact Iff.rfl
  | tail _ hlast ih => exact (finLaw_effect hlast).trans ih

namespace Session

/-- How much of the read buffer a step sends before it closes the channel: the
idle check runs the sending loop once, a failed read or write does not. -/
def Step.flushed : Step → Nat
  | .idle _ => 0x6000
  | _ => 0

/-- The step does not send a FIN while it leaves bytes behind: a step that closes
the channel at an end of file, with no FIN sent before, finds no more in the read
buffer than it sends first. -/
def DrainedAtClose (s : Session) (a : Step) : Prop :=
  s.closes a = some .eof → s.tcp.toClientFin = none → s.tcp.readBuffer.remaining ≤ a.flushed

theorem toList_beforeClose {s : Session} {a : Step} (hcloses : s.closes a = some .eof) :
    (s.beforeClose a).tcp.readBuffer.toList = s.tcp.readBuffer.toList.drop a.flushed := by
  cases a with
  | readable result feedback => simp [beforeClose, compactRead, Step.flushed]
  | idle feedback =>
    have hreset : s.tcp.reset = false := by
      by_contra hnot
      simp only [closes, Bool.not_eq_false] at hcloses hnot
      simp [hnot] at hcloses
    simp only [beforeClose, hreset, Step.flushed, Bool.false_eq_true, ↓reduceIte]
    split
    · exact s.toList_dispatchReadBuffer
    · rename_i hremaining
      have hempty : s.tcp.readBuffer.toList = [] := by simpa [ByteBuffer.toList_eq_nil_iff] using hremaining
      simp [hempty]
  | _ => simp [beforeClose, Step.flushed]

theorem finLaw_ackEvent (fin : TCPDispatcher.Fin) (before : List Event) : FinLaw before fin.ackEvent := by
  simp [TCPDispatcher.Fin.ackEvent, FinLaw]

/-- Closing the channel keeps the law exactly when it sends no FIN or nothing is
left in the read buffer. -/
theorem finLaw_exceptionRaised {s : Session} (hstream : Stream s.view) (e : IOException) (feedback : Feedback) :
    Law FinLaw (s.exceptionRaised e feedback).log ↔
      Law FinLaw s.log ∧ (e = .eof → s.tcp.toClientFin = none → s.tcp.readBuffer.toList = []) := by
  rw [law_exceptionRaised finLaw_ackEvent]
  refine and_congr_right fun _ => ?_
  cases e with
  | eof =>
    simp only [sendsAtClose, true_implies]
    exact imp_congr_right fun _ => hstream.finLaw_iff true
  | other => simp [closingSegment, rstSegment, buildTcp, TcpPacketBuilder, FinLaw]

/-- One step keeps the law exactly when it meets the condition. -/
theorem finLaw_step {s next : Session} {a : Step} (hstream : Stream s.view) (hstep : s.step a = .ok next) :
    Law FinLaw next.log ↔ Law FinLaw s.log ∧ DrainedAtClose s a := by
  obtain ⟨segment, direction, time, rfl, rfl⟩ | ⟨-, hending⟩ := step_cases hstep
  · rw [law_handleFin finLaw_ackEvent]
    simp [DrainedAtClose, closes]
  · cases hending with
    | effects hcloses hquiet hfits htx =>
      have hlog := finLaw_effects hquiet
      simp only [view_log] at hlog
      simp [hlog, DrainedAtClose, hcloses]
    | closed e hcloses hquiet hfits htx hnext =>
      subst hnext
      obtain ⟨readBuffer, clientSeq, log, hframe⟩ := s.beforeClose_frame a
      have hfin : (s.beforeClose a).tcp.toClientFin = s.tcp.toClientFin := by rw [hframe]
      have hlog := finLaw_effects hquiet
      simp only [view_log] at hlog
      rw [finLaw_exceptionRaised (hstream.effects hquiet), hlog, hfin, DrainedAtClose, hcloses]
      refine and_congr_right fun _ => ?_
      simp only [Option.some.injEq]
      refine forall_congr' fun heof => ?_
      subst heof
      rw [toList_beforeClose hcloses, List.drop_eq_nil_iff, ByteBuffer.length_toList]

variable {sessionKey : TcpSessionKey} {sync : TcpSegment} {identify : BitVec 32}
  {steps : List Step} {s : Session}

theorem run_finLaw (hrun : (Session.new sessionKey sync identify).run steps = .ok s) :
    Law FinLaw s.log ↔ Along step DrainedAtClose (Session.new sessionKey sync identify) steps := by
  have hiff := run_good_iff (I := fun s => Stream s.view) (G := fun s => Law FinLaw s.log)
    (Q := fun _ => True) (fun _ _ _ _ hstream => hstream.step) (fun _ _ _ _ hstream => finLaw_step hstream)
    (fun _ _ => trivial) (Stream.new sessionKey sync identify) hrun
  rw [hiff]
  exact and_iff_right (Law.nil _)

/-- What one large read of a connected session leaves in the buffer after the
sending loop. -/
theorem Room.length_after_read {s : Session} (hroom : Room s) (hempty : s.tcp.readBuffer.toList = [])
    {data : List UInt8} (hfits : data.length ≤ BUFFER_SIZE) :
    (s.storeRead data).dispatchReadBuffer.tcp.readBuffer.remaining = data.length - 0x6000 := by
  have hfree : s.tcp.readBuffer.compact.remaining = BUFFER_SIZE := by
    rw [ByteBuffer.remaining_compact, hempty, hroom.readCapacity]
    rfl
  have hstored : (s.storeRead data).tcp.readBuffer.toList = data := by
    simp only [storeRead, ByteBuffer.toList_flip_fill_compact, hempty, hfree, List.nil_append]
    exact List.take_of_length_le hfits
  rw [← ByteBuffer.length_toList, toList_dispatchReadBuffer, hstored, List.length_drop]

/-- One large read, then the end of the stream: the FIN is sent over what the
sending loop left behind. -/
theorem Fresh.read_then_eof {s : Session} (hfresh : Fresh s) (data : List UInt8)
    (hfits : data.length ≤ BUFFER_SIZE) :
    ∃ final before segment, s.run [.readable (.offered data) none, .readable .eof none] = .ok final ∧
      final.log = before ++ [.sent .exceptionRaised segment true] ∧ segment.isFin = true ∧
      final.tcp.readBuffer.toList.length = data.length - 0x6000 := by
  have hread := hfresh.room.step_readable hfresh.valid hfresh.interest hfresh.connected (.offered data) none
  dsimp only at hread
  have hroom := hfresh.room.step hread
  have hremaining := hfresh.room.length_after_read hfresh.empty hfits
  obtain ⟨hkey, hconnected, hfirst⟩ : (s.storeRead data).dispatchReadBuffer.key = s.key ∧
      (s.storeRead data).dispatchReadBuffer.connected = s.connected ∧
      (s.storeRead data).dispatchReadBuffer.tcp.toClientFin = s.tcp.toClientFin := by
    obtain ⟨readBuffer, clientSeq, log, hframe⟩ := (s.storeRead data).dispatchLoop_frame 0x7FFF
    rw [dispatchReadBuffer, hframe]
    exact ⟨rfl, rfl, rfl⟩
  rw [hfresh.first] at hfirst
  generalize (s.storeRead data).dispatchReadBuffer = middle at *
  have hclose := hroom.step_readable (by rw [hkey, hfresh.valid]) (by rw [hkey, hfresh.interest])
    (by rw [hconnected, hfresh.connected]) .eof none
  refine ⟨_, middle.log, middle.compactRead.closeKey.finSegment,
    run_cons_ok.mpr ⟨middle, hread, run_cons_ok.mpr ⟨_, hclose, rfl⟩⟩, ?_⟩
  have hclosed : middle.compactRead.closeKey.tcp.toClientFin.isNone = true :=
    Option.isNone_iff_eq_none.mpr hfirst
  simp only [exceptionRaised, hclosed, ↓reduceIte, reenter]
  refine ⟨rfl, rfl, ?_⟩
  rw [← hremaining, ← ByteBuffer.length_toList]
  exact congrArg List.length middle.tcp.readBuffer.toList_flip_compact

/-- Over any run, every FIN comes after all the bytes read exactly when no step of
the run closes the channel over a read buffer that it does not empty first. -/
theorem no_truncated_download_iff (hrun : (Session.new sessionKey sync identify).run steps = .ok s) :
    (∀ before segment forward after, s.log = before ++ .sent .exceptionRaised segment forward :: after →
      segment.isFin = true → payloadBytes before = readBytes before ∧
        ∀ start, synAckSeq before = some start →
          segment.seq = start + 1 + BitVec.ofNat 32 (readBytes before).length) ↔
    Along step DrainedAtClose (Session.new sessionKey sync identify) steps := by
  rw [← run_finLaw hrun]
  constructor
  · intro hfin before event after hlog
    cases event with
    | sent site segment forward =>
      cases site with
      | exceptionRaised => exact hfin before segment forward after hlog
      | _ => trivial
    | _ => trivial
  · intro hlaw before segment forward after hlog
    exact hlaw before _ after hlog

theorem no_truncated_download_iff_three_bytes :
    ∃ s, (Session.new ⟨⟨1, 40000⟩, ⟨2, 80⟩⟩ (TcpPacketBuilder ⟨1, 40000⟩ ⟨2, 80⟩) 7).run
        [.connectable .finished none, .readable (.offered [1, 2, 3]) none, .readable .eof none] = .ok s ∧
      ((∀ before segment forward after, s.log = before ++ .sent .exceptionRaised segment forward :: after →
        segment.isFin = true → payloadBytes before = readBytes before ∧
          ∀ start, synAckSeq before = some start →
            segment.seq = start + 1 + BitVec.ofNat 32 (readBytes before).length) ↔
      Along step DrainedAtClose (Session.new ⟨⟨1, 40000⟩, ⟨2, 80⟩⟩ (TcpPacketBuilder ⟨1, 40000⟩ ⟨2, 80⟩) 7)
        [.connectable .finished none, .readable (.offered [1, 2, 3]) none, .readable .eof none]) := by
  have hfresh := Fresh.finishConnect ⟨⟨1, 40000⟩, ⟨2, 80⟩⟩ (TcpPacketBuilder ⟨1, 40000⟩ ⟨2, 80⟩) 7
  obtain ⟨s, before, segment, hrun, -⟩ := hfresh.read_then_eof [1, 2, 3] (by decide)
  exact ⟨s, run_cons_ok.mpr ⟨_, rfl, hrun⟩, no_truncated_download_iff (run_cons_ok.mpr ⟨_, rfl, hrun⟩)⟩

/-- Three chunks and one byte more, then the end of the stream: the FIN goes out
while the last byte is still in the read buffer. -/
theorem truncated_download :
    ∃ (steps : List Step) (s : Session) (before : List Event) (segment : TcpSegment),
      (Session.new ⟨⟨1, 40000⟩, ⟨2, 80⟩⟩ (TcpPacketBuilder ⟨1, 40000⟩ ⟨2, 80⟩) 7).run steps = .ok s ∧
      s.log = before ++ [.sent .exceptionRaised segment true] ∧ segment.isFin = true ∧
      s.tcp.readBuffer.toList ≠ [] ∧ payloadBytes before ≠ readBytes before := by
  have hfresh := Fresh.finishConnect ⟨⟨1, 40000⟩, ⟨2, 80⟩⟩ (TcpPacketBuilder ⟨1, 40000⟩ ⟨2, 80⟩) 7
  obtain ⟨s, before, segment, hrun, hlog, hfin, hlength⟩ :=
    hfresh.read_then_eof (List.replicate 0x6001 0) (by rw [List.length_replicate]; decide)
  have hall : (Session.new ⟨⟨1, 40000⟩, ⟨2, 80⟩⟩ (TcpPacketBuilder ⟨1, 40000⟩ ⟨2, 80⟩) 7).run
      [.connectable .finished none, .readable (.offered (List.replicate 0x6001 0)) none,
        .readable .eof none] = .ok s := run_cons_ok.mpr ⟨_, rfl, hrun⟩
  rw [List.length_replicate] at hlength
  have hleft : s.tcp.readBuffer.toList ≠ [] := by
    rw [ne_eq, ← List.length_eq_zero_iff, hlength]
    decide
  refine ⟨_, s, before, segment, hall, hlog, hfin, hleft, fun hsame => hleft ?_⟩
  -- all that was read is conserved, so equal payload leaves an empty buffer
  have hconserved := (run_stream hall).conserved
  rw [view_log, hlog, payloadBytes_snoc, readBytes_snoc, hsame, List.append_assoc] at hconserved
  have hrest := List.append_cancel_left hconserved
  exact (List.append_eq_nil_iff.mp hrest).2

end Session

end inspector.vpn
