import Inspector.Vpn.Upload

open nio machine

namespace inspector.vpn

/-- The app's side of a connection: all it has sent, how many of these bytes have
been acknowledged to it, how much of the dispatcher's log has reached it, and
whether it has sent its FIN. -/
structure App where
  start : BitVec 32
  sent : List UInt8
  acked : Nat
  received : Nat
  finished : Bool

namespace App

def outstanding (app : App) : Nat := app.sent.length - app.acked

/-- The number of the first byte that is not acknowledged. -/
def sndUna (app : App) : BitVec 32 := app.start + 1 + BitVec.ofNat 32 app.acked

/-- An acknowledgement number moves the window when it acknowledges no more than
what is outstanding; any other number is stale. -/
def acceptAck (app : App) (ack : BitVec 32) : App :=
  let advance := (ack - app.sndUna).toNat
  if advance ≤ app.outstanding then { app with acked := app.acked + advance } else app

/-- The next event of the log reaches the app, which sees the forwarded segments. -/
def receive (app : App) (log : List Event) : App :=
  match log[app.received]? with
  | some (.sent _ segment true) => { app.acceptAck segment.ack with received := app.received + 1 }
  | some _ => { app with received := app.received + 1 }
  | none => app

end App

/-- The two ends of one connection, with the decoder between them and the bytes that it
has handed over so far. -/
structure Endpoints where
  app : App
  delivered : List UInt8
  session : Session

namespace Endpoints

def new (sessionKey : TcpSessionKey) (sync : TcpSegment) (identify : BitVec 32) : Endpoints where
  app := { start := sync.seq, sent := [], acked := 0, received := 0, finished := false }
  delivered := []
  session := Session.new sessionKey sync identify

inductive Action where
  | send (data : List UInt8)
  | finish
  | receive
  | lose
  | deliver (count : Nat)
  | dispatcher (a : Session.Step)
  deriving DecidableEq, Repr

/-- The bytes the app has sent and the decoder has not handed over yet. -/
def inFlight (e : Endpoints) : List UInt8 := e.app.sent.drop e.delivered.length

/-- The app keeps to the window and sends nothing after its FIN. The decoder hands
over the bytes in flight, and a FIN once the app has sent one. -/
def step (e : Endpoints) : Action → Except RuntimeException Endpoints
  | .send data =>
    if !e.app.finished && e.app.outstanding + data.length ≤ 0x7fff then
      .ok { e with app.sent := e.app.sent ++ data }
    else .ok e
  | .finish => .ok { e with app.finished := true }
  | .receive => .ok { e with app := e.app.receive e.session.log }
  | .lose => .ok { e with app.received := min (e.app.received + 1) e.session.log.length }
  | .deliver count => do
    let session ← e.session.step (.handleTx (e.inFlight.take count))
    return { e with session, delivered := e.delivered ++ e.inFlight.take count }
  | .dispatcher (.handleTx _) => .ok e
  | .dispatcher (.handleFin segment direction time) => do
    if !e.app.finished then return e
    let session ← e.session.step (.handleFin segment direction time)
    return { e with session }
  | .dispatcher a => do
    let session ← e.session.step a
    return { e with session }

def run (e : Endpoints) (actions : List Action) : Except RuntimeException Endpoints := machine.run step e actions

/-- The invariant of both ends. As long as the app may send, it has been
acknowledged no more than the channel has accepted. -/
structure Windowed (e : Endpoints) : Prop where
  upload : Upload e.app.start e.session.view
  room : Session.Room e.session
  handed : txBytes e.session.log = e.delivered
  flight : e.delivered ++ e.inFlight = e.app.sent
  window : e.app.sent.length ≤ (wroteBytes e.session.log).length + 0x7fff
  received : e.app.received ≤ e.session.log.length
  unfinished : e.app.finished = false → Unfinished e.session.view ∧
    e.app.acked ≤ (wroteBytes (e.session.log.take e.app.received)).length ∧
    e.app.sent.length ≤ e.app.acked + 0x7fff

theorem Windowed.new (sessionKey : TcpSessionKey) (sync : TcpSegment) (identify : BitVec 32) :
    Windowed (Endpoints.new sessionKey sync identify) where
  upload := Upload.new sessionKey sync identify
  room := Session.Room.new sessionKey sync identify
  handed := rfl
  flight := rfl
  window := Nat.zero_le _
  received := Nat.zero_le _
  unfinished := fun _ => ⟨⟨fun _ => ⟨rfl, rfl⟩, .inl rfl, by simp [Endpoints.new, Session.new, Session.view]⟩,
    Nat.zero_le _, Nat.zero_le _⟩

theorem wroteBytes_length_mono {first second : List Event} (hbegins : first <+: second) :
    (wroteBytes first).length ≤ (wroteBytes second).length := by
  obtain ⟨rest, rfl⟩ := hbegins
  simp [wroteBytes]

/-- A step of the dispatcher keeps both ends in order. -/
theorem Windowed.session {e : Endpoints} (hwindowed : Windowed e) {a : Session.Step} {next : Session}
    (hstep : e.session.step a = .ok next) {later : List UInt8} (hlater : e.inFlight = a.txData ++ later)
    (hfin : e.app.finished = false → ∀ segment direction time, a ≠ .handleFin segment direction time) :
    Windowed { e with session := next, delivered := e.delivered ++ a.txData } := by
  have hbegins := Session.log_prefix hstep
  have hmono := wroteBytes_length_mono hbegins
  obtain ⟨hupload, hroom, hhanded, hflight, hwindow, hreceived, hunfinished⟩ := hwindowed
  refine ⟨hupload.step hstep, hroom.step hstep, ?_, ?_, Nat.le_trans hwindow (by simpa using hmono),
    Nat.le_trans hreceived hbegins.length_le, fun hopen => ?_⟩
  · rw [Session.txBytes_step hstep, hhanded]
  · rw [hlater, ← List.append_assoc] at hflight
    rw [inFlight, ← hflight, List.drop_left]
  · obtain ⟨hquiet, hacked, hbound⟩ := hunfinished hopen
    refine ⟨Session.unfinished_step hquiet (hfin hopen) hstep, ?_, hbound⟩
    obtain ⟨rest, hlog⟩ := hbegins
    rw [← hlog, List.take_append_of_le_length hreceived]
    exact hacked

/-- An acknowledgement of what the channel had accepted moves the app's window no
further than that. -/
theorem acked_acceptAck {app : App} {ack : BitVec 32} {accepted : List UInt8}
    (hack : ack = streamSeq app.start accepted ∨ ack = app.start ∧ accepted = [])
    (hacked : app.acked ≤ accepted.length) (hbound : app.sent.length ≤ app.acked + 0x7fff) :
    (app.acceptAck ack).acked ≤ accepted.length ∧ app.acked ≤ (app.acceptAck ack).acked := by
  simp only [App.acceptAck]
  split
  · rename_i hadvance
    refine ⟨?_, Nat.le_add_right _ _⟩
    rcases hack with rfl | ⟨rfl, rfl⟩
    · have hdistance : streamSeq app.start accepted - app.sndUna =
          BitVec.ofNat 32 (accepted.length - app.acked) := by
        have hsplit : accepted.length = app.acked + (accepted.length - app.acked) := by omega
        rw [streamSeq, App.sndUna, hsplit, BitVec.ofNat_add, ← BitVec.add_assoc, BitVec.add_comm,
          BitVec.add_sub_cancel, Nat.add_sub_cancel_left]
      have hmod := Nat.mod_le (accepted.length - app.acked) (2 ^ 32)
      change app.acked + (streamSeq app.start accepted - app.sndUna).toNat ≤ accepted.length
      rw [hdistance, BitVec.toNat_ofNat]
      omega
    · -- the number of the SYN itself is behind the window by one, so far ahead of it
      exfalso
      have hzero : app.acked = 0 := by simpa using hacked
      have hdistance : (app.start - app.sndUna).toNat = 2 ^ 32 - 1 := by
        rw [App.sndUna, hzero]
        bv_omega
      simp only [App.outstanding] at hadvance
      omega
  · exact ⟨hacked, Nat.le_refl _⟩

/-- The app moves on in the log. -/
theorem Windowed.advance {e : Endpoints} (hwindowed : Windowed e) (acked received : Nat)
    (hreceived : received ≤ e.session.log.length)
    (hacked : e.app.finished = false → e.app.acked ≤ acked ∧
      acked ≤ (wroteBytes (e.session.log.take received)).length) :
    Windowed { e with app := { e.app with acked, received } } := by
  obtain ⟨hupload, hroom, hhanded, hflight, hwindow, -, hunfinished⟩ := hwindowed
  refine ⟨hupload, hroom, hhanded, hflight, hwindow, hreceived, fun hopen => ?_⟩
  obtain ⟨hquiet, -, hbound⟩ := hunfinished hopen
  obtain ⟨hforward, hlimit⟩ := hacked hopen
  exact ⟨hquiet, hlimit, Nat.le_trans hbound (Nat.add_le_add_right hforward _)⟩

/-- Without an acknowledgement only the position in the log changes. -/
theorem Windowed.skip {e : Endpoints} (hwindowed : Windowed e) (received : Nat)
    (hforward : e.app.received ≤ received) (hreceived : received ≤ e.session.log.length) :
    Windowed { e with app.received := received } := by
  refine hwindowed.advance e.app.acked received hreceived fun hopen => ⟨Nat.le_refl _, ?_⟩
  obtain ⟨-, hacked, -⟩ := hwindowed.unfinished hopen
  exact Nat.le_trans hacked (wroteBytes_length_mono (List.take_prefix_take_left hforward))

theorem acceptAck_frame (app : App) (ack : BitVec 32) :
    app.acceptAck ack = { app with acked := (app.acceptAck ack).acked } := by
  simp only [App.acceptAck]
  split <;> rfl

/-- What the app receives next acknowledges no more than the channel had accepted
when it was built. -/
theorem Windowed.receive {e : Endpoints} (hwindowed : Windowed e) :
    Windowed { e with app := e.app.receive e.session.log } := by
  have hreceived := hwindowed.received
  unfold App.receive
  split
  · rename_i site segment hevent
    obtain ⟨hindex, hget⟩ := List.getElem?_eq_some_iff.mp hevent
    rw [acceptAck_frame]
    refine hwindowed.advance _ (e.app.received + 1) hindex fun hopen => ?_
    obtain ⟨hquiet, hacked, hbound⟩ := hwindowed.unfinished hopen
    have hlog : e.session.log = e.session.log.take e.app.received ++
        .sent site segment true :: e.session.log.drop (e.app.received + 1) := by
      rw [← hget, List.getElem_cons_drop, List.take_append_drop]
    have hlaw := hwindowed.upload.law _ _ _ hlog
    have hsite : site ≠ .finAck := by
      rintro rfl
      exact hquiet.noAck segment true (List.mem_of_getElem? hevent)
    have hack : segment.ack = streamSeq e.app.start (wroteBytes (e.session.log.take e.app.received)) ∨
        segment.ack = e.app.start ∧ wroteBytes (e.session.log.take e.app.received) = [] := by
      cases site with
      | finAck => exact absurd rfl hsite
      | _ => exact hlaw
    obtain ⟨hlimit, hforward⟩ := acked_acceptAck hack hacked hbound
    refine ⟨hforward, Nat.le_trans hlimit (wroteBytes_length_mono ?_)⟩
    exact List.take_prefix_take_left (Nat.le_succ _)
  · rename_i event hevent
    obtain ⟨hindex, -⟩ := List.getElem?_eq_some_iff.mp hevent
    exact hwindowed.skip _ (Nat.le_succ _) hindex
  · exact hwindowed

/-- The app sends within its window. -/
theorem Windowed.send {e : Endpoints} (hwindowed : Windowed e) {data : List UInt8}
    (hopen : e.app.finished = false) (hroom : e.app.outstanding + data.length ≤ 0x7fff) :
    Windowed { e with app.sent := e.app.sent ++ data } := by
  obtain ⟨hupload, hbuffers, hhanded, hflight, hwindow, hreceived, hunfinished⟩ := hwindowed
  obtain ⟨hquiet, hacked, -⟩ := hunfinished hopen
  have hmono := wroteBytes_length_mono (List.take_prefix e.app.received e.session.log)
  simp only [App.outstanding] at hroom
  have hbound : (e.app.sent ++ data).length ≤ e.app.acked + 0x7fff := by
    rw [List.length_append]
    omega
  refine ⟨hupload, hbuffers, hhanded, ?_, Nat.le_trans hbound (Nat.add_le_add_right (Nat.le_trans hacked hmono) _),
    hreceived, fun _ => ⟨hquiet, hacked, hbound⟩⟩
  have hlength : e.delivered.length ≤ e.app.sent.length := by
    rw [← hflight, List.length_append]
    exact Nat.le_add_right _ _
  change e.delivered ++ (e.app.sent ++ data).drop e.delivered.length = e.app.sent ++ data
  rw [List.drop_append_of_le_length hlength, ← List.append_assoc]
  exact congrArg (· ++ data) hflight

theorem map_session_eq_ok {outcome : Except RuntimeException Session} {f : Session → Endpoints} {next : Endpoints}
    (hbind : (do let session ← outcome; return f session) = .ok next) :
    ∃ session, outcome = .ok session ∧ next = f session := by
  cases outcome with
  | ok session =>
    cases hbind
    exact ⟨session, rfl, rfl⟩
  | error x => cases hbind

/-- A step that hands nothing over. -/
theorem Windowed.session_of_nil {e : Endpoints} (hwindowed : Windowed e) {a : Session.Step} {next : Session}
    (hstep : e.session.step a = .ok next) (hnone : a.txData = [])
    (hfin : e.app.finished = false → ∀ segment direction time, a ≠ .handleFin segment direction time) :
    Windowed { e with session := next } := by
  have hflight : e.inFlight = a.txData ++ e.inFlight := by rw [hnone, List.nil_append]
  have hsession := hwindowed.session hstep hflight hfin
  rw [hnone, List.append_nil] at hsession
  exact hsession

theorem Windowed.step {e next : Endpoints} {a : Action} (hwindowed : Windowed e)
    (hstep : e.step a = .ok next) : Windowed next := by
  cases a with
  | send data =>
    simp only [Endpoints.step] at hstep
    split at hstep
    · rename_i hguard
      simp only [Bool.and_eq_true, Bool.not_eq_eq_eq_not, Bool.not_true, decide_eq_true_eq] at hguard
      cases hstep
      exact hwindowed.send hguard.1 hguard.2
    · cases hstep
      exact hwindowed
  | finish =>
    cases hstep
    obtain ⟨hupload, hroom, hhanded, hflight, hwindow, hreceived, -⟩ := hwindowed
    exact ⟨hupload, hroom, hhanded, hflight, hwindow, hreceived, fun hopen => Bool.noConfusion hopen⟩
  | receive =>
    cases hstep
    exact hwindowed.receive
  | lose =>
    cases hstep
    have hreceived := hwindowed.received
    exact hwindowed.skip _ (Nat.le_min.mpr ⟨Nat.le_succ _, hreceived⟩) (Nat.min_le_right _ _)
  | deliver count =>
    obtain ⟨session, hsession, rfl⟩ := map_session_eq_ok hstep
    exact hwindowed.session hsession (List.take_append_drop count e.inFlight).symm (by simp)
  | dispatcher a =>
    cases a with
    | handleTx data =>
      cases hstep
      exact hwindowed
    | handleFin segment direction time =>
      simp only [Endpoints.step] at hstep
      split at hstep
      · cases hstep
        exact hwindowed
      · rename_i hguard
        obtain ⟨session, hsession, rfl⟩ := map_session_eq_ok hstep
        exact hwindowed.session_of_nil hsession rfl fun hopen => absurd hopen (by simpa using hguard)
    | _ =>
      obtain ⟨session, hsession, rfl⟩ := map_session_eq_ok hstep
      exact hwindowed.session_of_nil hsession rfl (by simp)

theorem map_session_eq_error {outcome : Except RuntimeException Session} {f : Session → Endpoints}
    {x : RuntimeException}
    (hbind : (do let session ← outcome; return f session) = .error x) : outcome = .error x := by
  cases outcome with
  | ok session => cases hbind
  | error other =>
    cases hbind
    rfl

/-- What is handed over fits: it is not more than the window behind what the
channel has accepted. -/
theorem Windowed.session_ne_overflow {e : Endpoints} (hwindowed : Windowed e) {a : Session.Step}
    {later : List UInt8} (hlater : e.inFlight = a.txData ++ later) :
    e.session.step a ≠ .error .BufferOverflowException := by
  intro hstep
  cases Session.step_failure hstep with
  | overflow data ha hfull =>
    subst ha
    have hflight := congrArg List.length hwindowed.flight
    have hhanded := congrArg List.length hwindowed.handed
    have hwindow := hwindowed.window
    have hcapacity := hwindowed.room.writeCapacity
    have hconserved := congrArg List.length hwindowed.upload.conserved
    rw [hlater] at hflight
    simp only [List.length_append, Session.view_log, Session.Step.txData] at hflight hconserved
    change _ + e.session.tcp.writeBuffer.toList.length = _ at hconserved
    simp only [BUFFER_SIZE] at hcapacity
    omega

theorem Windowed.step_ne_overflow {e : Endpoints} (hwindowed : Windowed e) (a : Action) :
    e.step a ≠ .error .BufferOverflowException := by
  intro hstep
  cases a with
  | send data =>
    simp only [Endpoints.step] at hstep
    split at hstep <;> cases hstep
  | finish => cases hstep
  | receive => cases hstep
  | lose => cases hstep
  | deliver count =>
    have hlater := (List.take_append_drop count e.inFlight).symm
    exact hwindowed.session_ne_overflow hlater (map_session_eq_error hstep)
  | dispatcher a =>
    cases a with
    | handleTx data => cases hstep
    | handleFin segment direction time =>
      simp only [Endpoints.step] at hstep
      split at hstep
      · cases hstep
      · exact hwindowed.session_ne_overflow (List.nil_append _).symm (map_session_eq_error hstep)
    | _ =>
      exact hwindowed.session_ne_overflow (List.nil_append _).symm (map_session_eq_error hstep)

/-- So the decoder can always hand over the next bytes. -/
theorem Windowed.deliver {e : Endpoints} (hwindowed : Windowed e) (count : Nat) :
    ∃ session, e.step (.deliver count) =
      .ok { e with session, delivered := e.delivered ++ e.inFlight.take count } := by
  cases htx : e.session.handleTx (e.inFlight.take count) with
  | ok session =>
    refine ⟨session, ?_⟩
    simp only [Endpoints.step, Session.step, htx]
    rfl
  | error x =>
    exfalso
    have hlater := (List.take_append_drop count e.inFlight).symm
    refine hwindowed.session_ne_overflow (a := .handleTx _) hlater ?_
    rw [Session.step, htx]
    unfold Session.handleTx at htx
    split at htx
    · exact htx.symm
    · cases htx

variable (sessionKey : TcpSessionKey) (sync : TcpSegment) (identify : BitVec 32) (actions : List Action)

/-- Under the app's window the write buffer never overflows, in any order of the
steps of the app, the decoder and the dispatcher; and what the channel has accepted
with what waits in the buffer is what the decoder has handed over, which is what the
app has sent, up to what is still in flight. -/
theorem upload_integrity :
    (Endpoints.new sessionKey sync identify).run actions ≠ .error .BufferOverflowException ∧
    ∀ e, (Endpoints.new sessionKey sync identify).run actions = .ok e →
      wroteBytes e.session.log ++ e.session.tcp.writeBuffer.toList = e.delivered ∧
      e.delivered ++ e.inFlight = e.app.sent := by
  have hnew := Windowed.new sessionKey sync identify
  refine ⟨run_ne_error (fun _ _ _ h => h.step) (fun _ a h => h.step_ne_overflow a) hnew, fun e hrun => ?_⟩
  have hwindowed : Windowed e := run_invariant (fun _ _ _ h => h.step) hnew hrun
  exact ⟨hwindowed.upload.conserved.trans hwindowed.handed, hwindowed.flight⟩

theorem upload_integrity_three_bytes :
    ∃ e, (Endpoints.new ⟨⟨1, 40000⟩, ⟨2, 80⟩⟩ (TcpPacketBuilder ⟨1, 40000⟩ ⟨2, 80⟩) 7).run
        [.dispatcher (.connectable .finished none), .receive, .send [1, 2, 3], .deliver 2] = .ok e ∧
      e.app.sent = [1, 2, 3] ∧ e.delivered = [1, 2] ∧
      wroteBytes e.session.log ++ e.session.tcp.writeBuffer.toList = e.delivered ∧
      e.delivered ++ e.inFlight = e.app.sent := by
  have hnew := Windowed.new ⟨⟨1, 40000⟩, ⟨2, 80⟩⟩ (TcpPacketBuilder ⟨1, 40000⟩ ⟨2, 80⟩) 7
  obtain ⟨e, hfirst, hsent, hnone⟩ : ∃ e, machine.run step
      (Endpoints.new ⟨⟨1, 40000⟩, ⟨2, 80⟩⟩ (TcpPacketBuilder ⟨1, 40000⟩ ⟨2, 80⟩) 7)
        [.dispatcher (.connectable .finished none), .receive, .send [1, 2, 3]] = .ok e ∧
      e.app.sent = [1, 2, 3] ∧ e.delivered = [] := ⟨_, rfl, rfl, rfl⟩
  have hwindowed : Windowed e := run_invariant (fun _ _ _ h => h.step) hnew hfirst
  obtain ⟨session, hdeliver⟩ := hwindowed.deliver 2
  have hrun : machine.run step (Endpoints.new ⟨⟨1, 40000⟩, ⟨2, 80⟩⟩ (TcpPacketBuilder ⟨1, 40000⟩ ⟨2, 80⟩) 7)
      ([.dispatcher (.connectable .finished none), .receive, .send [1, 2, 3]] ++ [.deliver 2]) =
      .ok { e with session, delivered := e.delivered ++ e.inFlight.take 2 } := by
    rw [run_append hfirst]
    exact run_cons_ok.mpr ⟨_, hdeliver, rfl⟩
  have htaken : e.delivered ++ e.inFlight.take 2 = [1, 2] := by
    rw [inFlight, hnone, hsent]
    rfl
  exact ⟨_, hrun, hsent, htaken, (upload_integrity _ _ _ _).2 _ hrun⟩

end Endpoints

end inspector.vpn
