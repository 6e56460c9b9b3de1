import Inspector.NetguardJni.TcpEffect

open Relation machine

namespace inspector.netguard.jni

namespace TcpSession

/-- The states in which a socket is closed, and the one in which no connection stands. -/
structure Consistent (s : TcpSession) : Prop where
  closed : s.state = .CLOSE → s.socket = false
  finished : s.state = .FIN_WAIT1 ∨ s.state = .LAST_ACK → s.socket = false
  waiting : s.state = .LISTEN → s.socks5 ≠ .CONNECTED

variable {P : Promise} {s : TcpSession} {tun : Tun}

/-- A session whose socket is open is not closed yet. -/
theorem Consistent.ne_close (hs : s.Consistent) (hsocket : s.socket = true) : s.state ≠ .CLOSE := by
  intro hstate
  rw [hs.closed hstate] at hsocket
  cases hsocket

/-- A segment is written in full, or it closes the session. -/
theorem writeOrClose_cases (s : TcpSession) (tun : Tun) (data : List UInt8) (syn ack fin : Bool) :
    s.writeOrClose tun data syn ack fin = (s.logged (.tun (s.segment data syn ack fin false) true), true) ∨
      s.writeOrClose tun data syn ack fin =
        ({ s.logged (.tun (s.segment data syn ack fin false) false) with state := .CLOSING }, false) := by
  cases hwhole : tun (s.segment data syn ack fin false) with
  | true => exact .inl (by simp [writeOrClose, write_tcp, logged, hwhole])
  | false => exact .inr (by simp [writeOrClose, write_tcp, logged, hwhole])

/-- An acknowledgement is one segment to the app, and a failed write ends in a reset. -/
theorem write_ack_effects (hlisten : s.state ≠ .LISTEN) (hclose : s.state ≠ .CLOSE) :
    TcpEffects P s (s.write_ack tun).1 := by
  rw [write_ack]
  rcases writeOrClose_cases s tun [] false true false with heq | heq
  · rw [heq]
    exact .single (.plain s true false _ fun _ => hlisten)
  · rw [heq]
    exact (ReflTransGen.single (.plain s true false _ fun _ => hlisten)).tail (.closing _ hclose)

/-- Before the handshake is over, a reset counts the SYN of the app. -/
theorem write_rst_of_listen (hstate : s.state = .LISTEN) :
    s.write_rst tun = { s with
      remote_seq := s.remote_seq + 1
      state := .CLOSING
      log := s.log ++ [.tun ({ s with remote_seq := s.remote_seq + 1 }.segment [] false true false true)
        (tun ({ s with remote_seq := s.remote_seq + 1 }.segment [] false true false true))] } := by
  simp [write_rst, write_tcp, hstate]

/-- A closed session that resets the app stays closed. -/
theorem write_rst_of_close (hstate : s.state = .CLOSE) :
    s.write_rst tun =
      s.logged (.tun (s.segment [] false false false true) (tun (s.segment [] false false false true))) := by
  simp [write_rst, write_tcp, hstate, logged]

/-- Between the handshake and the close, a reset leads to the closing state. -/
theorem write_rst_of_open (hlisten : s.state ≠ .LISTEN) (hclose : s.state ≠ .CLOSE) :
    s.write_rst tun =
      { s.logged (.tun (s.segment [] false false false true) (tun (s.segment [] false false false true))) with
        state := .CLOSING } := by
  simp [write_rst, write_tcp, hlisten, hclose, logged]

/-- A reset is a single effect in each of the three phases of a session. -/
theorem write_rst_effects (s : TcpSession) (tun : Tun) : TcpEffects P s (s.write_rst tun) := by
  by_cases hlisten : s.state = .LISTEN
  · rw [write_rst_of_listen hlisten]
    exact .single (.refuse s _ hlisten)
  · by_cases hclose : s.state = .CLOSE
    · rw [write_rst_of_close hclose]
      exact .single (.plain s false true _ (by simp))
    · rw [write_rst_of_open hlisten hclose]
      exact (ReflTransGen.single (.plain s false true _ (by simp))).tail (.closing _ hclose)

/-- A reset leaves the socket and the queue alone and closes the session, unless it is closed
already. -/
theorem write_rst_cases (s : TcpSession) (tun : Tun) :
    (s.write_rst tun).socket = s.socket ∧ (s.write_rst tun).forward = s.forward ∧
      (s.state ≠ .CLOSE → (s.write_rst tun).state = .CLOSING) := by
  by_cases hlisten : s.state = .LISTEN
  · rw [write_rst_of_listen hlisten]
    exact ⟨rfl, rfl, fun _ => rfl⟩
  · by_cases hclose : s.state = .CLOSE
    · rw [write_rst_of_close hclose]
      exact ⟨rfl, rfl, fun hne => absurd hclose hne⟩
    · rw [write_rst_of_open hlisten hclose]
      exact ⟨rfl, rfl, fun _ => rfl⟩

/-- A change of the fields that no effect depends on. -/
theorem quiet_effects (hwaiting : s.state = .LISTEN → s.socks5 ≠ .CONNECTED) (time : Int) (recv_window : BitVec 32)
    (last_keep_alive : Int) (ev : EpollEvents) :
    TcpEffects P s { s with time, recv_window, last_keep_alive, ev } :=
  .single (.quiet s time recv_window last_keep_alive s.socks5 ev hwaiting)

section check

variable (c : Check)

/-- A session that waits too long is reset, or closed when it has not answered the app yet. -/
theorem checkTimeout_effects : TcpEffects P s (s.checkTimeout c) := by
  rw [checkTimeout]
  split
  · split
    · exact .single (.closing s (by simp_all))
    · exact write_rst_effects s c.tun
  · exact .refl

/-- A closing session closes its socket. -/
theorem checkClosing_effects : TcpEffects P s (s.checkClosing c) := by
  rw [checkClosing]
  split
  · rename_i hstate
    dsimp only
    split
    · rename_i hsocket
      refine ((ReflTransGen.single (.close s hstate hsocket)).tail (.closed _ hstate rfl)).trans ?_
      exact quiet_effects (by simp) c.later _ _ _
    · rename_i hsocket
      refine (ReflTransGen.single (.closed s hstate (by simpa using hsocket))).trans ?_
      exact quiet_effects (by simp) c.later _ _ _
  · exact .refl

/-- No session is closing any more behind that part of the check. -/
theorem checkClosing_state : (s.checkClosing c).state ≠ .CLOSING := by
  rw [checkClosing]
  split
  · simp
  · assumption

/-- What was sent and received is told behind the end of a session. -/
theorem checkUsage_effects (hstate : s.state ≠ .CLOSING) : TcpEffects P s s.checkUsage := by
  rw [checkUsage]
  split
  · rename_i husage
    exact .single (.account s (husage.1.resolve_left hstate))
  · exact .refl

/-- The check of a session is made of its three parts. -/
theorem check_effects : TcpEffects P s (s.check_tcp_session c) := by
  have hbefore : TcpEffects P s ((s.checkTimeout c).checkClosing c).checkUsage :=
    ((checkTimeout_effects c).trans (checkClosing_effects c)).trans (checkUsage_effects (checkClosing_state c))
  rw [check_tcp_session]
  split
  · rename_i hfree
    refine hbefore.tail (.free _ hfree.1 ?_ ?_)
    · rw [checkUsage] at hfree ⊢
      split
      · rfl
      · rename_i husage
        rw [if_neg husage] at hfree
        by_contra hsent
        exact husage ⟨.inr hfree.1, .inl hsent⟩
    · rw [checkUsage] at hfree ⊢
      split
      · rfl
      · rename_i husage
        rw [if_neg husage] at hfree
        by_contra hreceived
        exact husage ⟨.inr hfree.1, .inr hreceived⟩
  · exact hbefore

end check

section monitor

variable (m : Monitor)

/-- A keep alive is a segment one number before the next one of the session. -/
theorem keepAlive_effects (hstate : s.Transfers) : TcpEffects P s (s.keepAlive m) := by
  rw [keepAlive]
  split
  · have hback : s.remote_seq - 1 + 1 = s.remote_seq := BitVec.sub_add_cancel _ _
    have hlisten : s.state ≠ .LISTEN := by rcases hstate with hstate | hstate <;> simp [hstate]
    have hwritten : ∀ whole, TcpEffects P s ({ s with last_keep_alive := m.ms }.logged
        (.tun ({ s with remote_seq := s.remote_seq - 1 }.segment [] false true false false) whole)) := fun whole =>
      (quiet_effects (absurd · hlisten) s.time s.recv_window m.ms s.ev).tail (.keepAlive _ whole hstate)
    rw [write_ack]
    rcases writeOrClose_cases { s with last_keep_alive := m.ms, remote_seq := s.remote_seq - 1 }
        m.tun [] false true false
      with heq | heq
    · rw [heq]
      dsimp only [logged]
      rw [hback]
      exact hwritten _
    · rw [heq]
      dsimp only [logged]
      rw [hback]
      refine (hwritten _).tail (.closing _ ?_)
      rcases hstate with hstate | hstate <;> simp [logged, hstate]
  · exact .refl

/-- A keep alive leaves the socket alone, and ends the session only when it cannot be
written. -/
theorem keepAlive_cases (s : TcpSession) : (s.keepAlive m).socket = s.socket ∧
    ((s.keepAlive m).state = s.state ∨ (s.keepAlive m).state = .CLOSING) := by
  rw [keepAlive]
  split
  · rw [write_ack]
    rcases writeOrClose_cases { s with last_keep_alive := m.ms, remote_seq := s.remote_seq - 1 }
        m.tun [] false true false
      with heq | heq
    · rw [heq]
      exact ⟨rfl, .inl rfl⟩
    · rw [heq]
      exact ⟨rfl, .inr rfl⟩
  · exact ⟨rfl, .inl rfl⟩

/-- Of the session itself, only the keep alive is left by the choice of the events. -/
theorem monitorEvents_cases (s : TcpSession) :
    (s.monitorEvents m).1 = s ∨ s.Transfers ∧ (s.monitorEvents m).1 = s.keepAlive m := by
  rw [monitorEvents]
  split
  · exact .inl rfl
  · rename_i hstate
    split
    · exact .inl rfl
    · exact .inr ⟨.inl hstate, rfl⟩
  · rename_i hstate
    split
    · exact .inl rfl
    · exact .inr ⟨.inr hstate, rfl⟩
  · exact .inl rfl

/-- Choosing the events of a session may send a keep alive, and may close it. -/
theorem monitor_effects (hs : s.Consistent) (hsocket : s.socket = true) : TcpEffects P s (s.monitor_tcp_session m) := by
  have hbefore : TcpEffects P s (s.monitorEvents m).1 ∧ (s.monitorEvents m).1.state ≠ .CLOSE ∧
      ((s.monitorEvents m).1.state = .LISTEN → (s.monitorEvents m).1.socks5 ≠ .CONNECTED) := by
    rcases monitorEvents_cases m s with heq | ⟨htransfers, heq⟩
    · rw [heq]
      exact ⟨.refl, hs.ne_close hsocket, hs.waiting⟩
    · rw [heq]
      refine ⟨keepAlive_effects m htransfers, ?_, ?_⟩
      all_goals
        rcases (keepAlive_cases m s).2 with hstate | hstate
        · rw [hstate]
          rcases htransfers with hstate | hstate <;> simp [hstate]
        · simp [hstate]
  rw [monitor_tcp_session]
  generalize s.monitorEvents m = result at hbefore ⊢
  obtain ⟨t, events⟩ := result
  obtain ⟨heffects, hclose, hsocks5⟩ := hbefore
  have hevents : TcpEffects P s { t with ev := events } := heffects.trans (quiet_effects hsocks5 _ _ _ events)
  dsimp only
  split
  · split
    · exact hevents
    · exact hevents.tail (.closing _ hclose)
  · exact heffects

end monitor

section connect

variable (config : NativeConfig) (e : SocketEvent)

/-- Each step of the handshake with the proxy sends one request, and the last one answers the app. -/
theorem sendConnect_effects (hconnected : s.socks5 ≠ .CONNECTED) (hsocket : s.socket = true) :
    TcpEffects P s (s.sendConnect config e) := by
  have hrequest : TcpEffects P s
      (if e.socksSent then s.logged (.socks5 (s.socks5Request config))
        else (s.logged (.socks5 (s.socks5Request config))).write_rst e.tun) := by
    split
    · exact .single (.socks5 s _ hsocket)
    · exact .head (.socks5 s _ hsocket) (write_rst_effects _ _)
  rw [sendConnect]
  split
  · exact hrequest
  · exact hrequest
  · exact hrequest
  · rename_i hsocks5
    exact absurd hsocks5 hconnected
  · exact .refl

/-- With the connection to the server comes the SYN of the answer to the app. -/
theorem establish_effects (hstate : s.state = .LISTEN) (hsocket : s.socket = true) :
    TcpEffects P s ({ s with socks5 := .CONNECTED }.establish e) := by
  rw [establish, write_syn_ack]
  rcases writeOrClose_cases { s with socks5 := .CONNECTED, remote_seq := s.remote_seq + 1 } e.tun [] true true false
    with heq | heq
  · rw [heq]
    exact (ReflTransGen.single (.synAck s true hstate hsocket)).trans (quiet_effects (by simp) e.now _ _ _)
  · rw [heq]
    exact .single (.synAck s false hstate hsocket)

/-- Before it answers the SYN, a session is connected, or it is not. -/
theorem readConnect_cases (hs : s.Consistent) (hstate : s.state = .LISTEN) :
    s.readConnect config e = { s with socks5 := .CONNECTED } ∨
      TcpEffects P s (s.readConnect config e) ∧ (s.readConnect config e).socks5 ≠ .CONNECTED ∧
        (s.readConnect config e).socket = s.socket := by
  have hwaiting := hs.waiting hstate
  have hsocks5 : ∀ socks5, { s with socks5 } = { s with socks5 := .CONNECTED } ∨
      TcpEffects P s { s with socks5 } ∧ socks5 ≠ .CONNECTED ∧ { s with socks5 }.socket = s.socket := by
    intro socks5
    by_cases hconnected : socks5 = .CONNECTED
    · exact .inl (by rw [hconnected])
    · exact .inr ⟨.single (.quiet s _ _ _ socks5 _ fun _ => hconnected), hconnected, rfl⟩
  have hrst : ∀ t : TcpSession, (t.write_rst e.tun).socks5 = t.socks5 := by
    intro t
    simp only [write_rst, write_tcp]
    split <;> split <;> rfl
  rw [readConnect]
  split
  · split
    · exact hsocks5 _
    · exact .inr ⟨.refl, hwaiting, rfl⟩
  · split
    · split
      · dsimp only
        split
        · refine .inr ⟨.head (.quiet s s.time s.recv_window s.last_keep_alive .zero s.ev (by simp))
            (write_rst_effects _ _), ?_, (write_rst_cases _ _).1⟩
          rw [hrst]
          simp
        · exact hsocks5 _
      · refine .inr ⟨write_rst_effects _ _, ?_, (write_rst_cases _ _).1⟩
        rw [hrst]
        exact hwaiting
    · exact .inr ⟨.refl, hwaiting, rfl⟩

/-- A step of the handshake reads the answer before it and then sends the next request. -/
theorem connect_effects (hs : s.Consistent) (hstate : s.state = .LISTEN) (hsocket : s.socket = true) :
    TcpEffects P s ((s.readConnect config e).sendConnect config e) := by
  rcases readConnect_cases config e hs hstate with heq | ⟨heffects, hconnected, hopen⟩
  · rw [heq]
    exact establish_effects e hstate hsocket
  · exact heffects.trans (sendConnect_effects config e hconnected (hopen.trans hsocket))

end connect

section transfer

variable (config : NativeConfig) (e : SocketEvent)

/-- What the loop leaves. If it sent something and the session goes on, that was the last
thing done. -/
theorem forwardLoop_effects (hlisten : s.state ≠ .LISTEN) (hclose : s.state ≠ .CLOSE) (hsocket : s.socket = true)
    (results : List SendResult) {size : Nat} {fwd : Bool} (hfwd : fwd = true → s.state ≠ .CLOSING → HasJustSent s.log) :
    TcpEffects P s (forwardLoop tun results size fwd s).1 ∧
      (forwardLoop tun results size fwd s).1.socket = true ∧
      ((forwardLoop tun results size fwd s).1.state = s.state ∨
        (forwardLoop tun results size fwd s).1.state = .CLOSING) ∧
      ((forwardLoop tun results size fwd s).2 = true → (forwardLoop tun results size fwd s).1.state ≠ .CLOSING →
        HasJustSent (forwardLoop tun results size fwd s).1.log) := by
  induction results generalizing s size fwd with
  | nil => exact ⟨.refl, hsocket, .inl rfl, hfwd⟩
  | cons result results ih =>
    have hstop : TcpEffects P s s ∧ s.socket = true ∧ (s.state = s.state ∨ s.state = .CLOSING) ∧
        (fwd = true → s.state ≠ .CLOSING → HasJustSent s.log) := ⟨.refl, hsocket, .inl rfl, hfwd⟩
    rw [forwardLoop]
    split
    · exact hstop
    · rename_i first rest hforward
      split
      · rename_i hforwardable
        simp only [forwardable, Bool.and_eq_true, decide_eq_true_eq] at hforwardable
        obtain ⟨⟨hseq, hsent⟩, -⟩ := hforwardable
        have hsend : ∀ most, TcpEffect P s (s.sendFirst first rest (min most (first.data.length - first.sent))) :=
          fun most => .send s first rest _ hforward (by simpa using hseq) (by omega) hsocket hlisten
        split
        · exact hstop
        · obtain ⟨hopen, -, hclosing⟩ := write_rst_cases s tun
          exact ⟨write_rst_effects s tun, hopen.trans hsocket, .inr (hclosing hclose),
            fun _ hne => absurd (hclosing hclose) hne⟩
        · dsimp only
          split
          · obtain ⟨heffects, hlast⟩ :=
              ih (s := s.sendFirst first rest _) hlisten hclose hsocket fun _ _ => ⟨s.log, _, rfl⟩
            exact ⟨.head (hsend _) heffects, hlast⟩
          · exact ⟨.single (hsend _), hsocket, .inl rfl, fun _ _ => ⟨s.log, _, rfl⟩⟩
      · exact hstop

/-- What was handed on is acknowledged to the app, which leaves the socket open. -/
theorem acknowledge_effects (hlisten : s.state ≠ .LISTEN) (hclose : s.state ≠ .CLOSE) (hsocket : s.socket = true)
    {fwd : Bool} (hfwd : fwd = true → s.state ≠ .CLOSING → HasJustSent s.log) :
    TcpEffects P s (s.acknowledge e fwd) ∧ (s.acknowledge e fwd).socket = true ∧
      ((s.acknowledge e fwd).state = s.state ∨ (s.acknowledge e fwd).state = .CLOSING) := by
  rw [acknowledge]
  generalize s.get_receive_window e.after = recv_window
  have hwindow : TcpEffects P s { s with recv_window } := quiet_effects (absurd · hlisten) _ _ _ _
  dsimp only
  split
  · split
    · rename_i hconfirm
      obtain ⟨hsent, hforward, hstate⟩ := hconfirm
      have hlog : HasJustSent s.log := hfwd hsent (by simp [hstate])
      rw [write_ack]
      rcases writeOrClose_cases { s with recv_window, remote_seq := s.remote_seq + 1 } e.tun [] false true false
        with heq | heq
      · rw [heq]
        have heffect := hwindow.tail (.confirmFin { s with recv_window } true hstate hforward hlog)
        have hquiet := heffect.trans (quiet_effects (by simp) e.now recv_window s.last_keep_alive s.ev)
        simp only [if_true] at hquiet
        rw [← hstate] at hquiet
        exact ⟨hquiet, hsocket, .inl rfl⟩
      · rw [heq]
        exact ⟨hwindow.tail (.confirmFin { s with recv_window } false hstate hforward hlog), hsocket, .inr rfl⟩
    · have hack : TcpEffects P s (write_ack e.tun { s with recv_window }).1 :=
        hwindow.trans (write_ack_effects hlisten hclose)
      rw [write_ack] at hack ⊢
      rcases writeOrClose_cases { s with recv_window } e.tun [] false true false with heq | heq
      · rw [heq] at hack ⊢
        simp only [↓reduceIte]
        exact ⟨hack.trans (quiet_effects (s := logged { s with recv_window } _) (absurd · hlisten) e.now _ _ _),
          hsocket, .inl rfl⟩
      · rw [heq] at hack ⊢
        exact ⟨hack, hsocket, .inr rfl⟩
  · exact ⟨hwindow, hsocket, .inl rfl⟩

/-- The end of the stream of the server is a FIN to the app. -/
theorem receiveEnd_effects (hstate : s.Transfers) (hsocket : s.socket = true) : TcpEffects P s (s.receiveEnd e) := by
  have hlisten : s.state ≠ .LISTEN := by rcases hstate with hstate | hstate <;> simp [hstate]
  have hclose : s.state ≠ .CLOSE := by rcases hstate with hstate | hstate <;> simp [hstate]
  rw [receiveEnd]
  split
  · rename_i hforward
    rw [write_fin_ack]
    rcases writeOrClose_cases s e.tun [] false true true with heq | heq
    · rw [heq]
      have heffect : TcpEffects P s _ := .single (.serverFin s true hstate hsocket hforward)
      rcases hstate with hstate | hstate <;> simpa [logged, closeSocket, hstate] using heffect
    · rw [heq]
      have heffect : TcpEffects P s _ := .single (.serverFin s false hstate hsocket hforward)
      simpa [logged, closeSocket] using heffect
  · rw [write_rst_of_open hlisten hclose]
    exact ((ReflTransGen.single (.plain s false true _ (by simp))).tail (.closing _ hclose)).tail (.close _ rfl hsocket)

/-- The answers of name servers that are passed on keep their length. -/
theorem length_passOn (data : List UInt8) : (s.passOn config data).length = data.length := by
  rw [passOn]
  split
  · obtain ⟨response, heq, hlength, -⟩ :=
      safe_parse_dns_response (data.drop 2) config.is_domain_blocked config.rcode config.name_length
    rw [heq]
    simp only [List.length_append, hlength, List.length_take, List.length_drop]
    omega
  · rfl

/-- Only what a name server sends is changed on its way. -/
theorem passOn_of_ne (hdest : s.key.dest ≠ 53) (data : List UInt8) : s.passOn config data = data :=
  if_neg fun hdns => hdest hdns.1

/-- Data of the server is written to the app as one segment within the window and the MSS. -/
theorem receiveData_effects (hstate : s.Transfers) (hsocket : s.socket = true) {data : List UInt8} (hdata : data ≠ [])
    (hwindow : data.length ≤ s.get_send_window.toNat) (hmss : data.length ≤ s.mss.toNat) :
    TcpEffects P s (s.receiveData e config data) := by
  have heffect : ∀ whole, TcpEffect P s _ := fun whole =>
    .download s data (s.passOn config data) whole hstate hsocket (length_passOn config data)
      (fun hdest => passOn_of_ne config hdest data) hdata hwindow hmss
  rw [receiveData, write_data]
  dsimp only
  rcases writeOrClose_cases
    { s with received := s.received + BitVec.ofNat 64 data.length, log := s.log ++ [TcpEvent.recv data] }
    e.tun (passOn { s with received := s.received + BitVec.ofNat 64 data.length, log := s.log ++ [TcpEvent.recv data] }
      config data) false true false with heq | heq
  · rw [heq]
    have hlogged : TcpEffects P s _ := .single (heffect true)
    simpa [logged, segment, passOn] using hlogged
  · rw [heq]
    have hlogged : TcpEffects P s _ := .single (heffect false)
    simpa [logged, segment, passOn] using hlogged

/-- A segment has room for the bytes that are asked for. -/
theorem buffer_size_le (s : TcpSession) :
    (if s.get_send_window > s.mss.setWidth 32 then s.mss.toNat else s.get_send_window.toNat) ≤ s.get_send_window.toNat ∧
      (if s.get_send_window > s.mss.setWidth 32 then s.mss.toNat else s.get_send_window.toNat) ≤ s.mss.toNat := by
  have hmss : (s.mss.setWidth 32).toNat = s.mss.toNat := BitVec.toNat_setWidth_of_le (by decide)
  split
  · rename_i hlt
    rw [gt_iff_lt, BitVec.lt_def, hmss] at hlt
    exact ⟨Nat.le_of_lt hlt, le_rfl⟩
  · rename_i hle
    rw [gt_iff_lt, BitVec.lt_def, hmss] at hle
    exact ⟨le_rfl, Nat.le_of_not_lt hle⟩

/-- Whatever a read of the socket returns, no more than the window has room for is taken. -/
theorem receive_effects (hstate : s.Transfers) (hsocket : s.socket = true) : TcpEffects P s (s.receive e config) := by
  have hlisten : s.state ≠ .LISTEN := by rcases hstate with hstate | hstate <;> simp [hstate]
  have htime : TcpEffects P s { s with time := e.now } := quiet_effects (absurd · hlisten) _ _ _ _
  have hle := s.buffer_size_le
  rw [receive]
  dsimp only
  generalize (if s.get_send_window > s.mss.setWidth 32 then s.mss.toNat else s.get_send_window.toNat) = size at hle ⊢
  split
  · split
    · exact htime
    · exact htime.trans (write_rst_effects _ _)
    · rename_i data hdata
      split
      · exact htime.trans (receiveEnd_effects e hstate hsocket)
      · rename_i hne
        have hlength := List.length_take_le size data
        exact htime.trans (receiveData_effects (s := { s with time := e.now }) config e hstate hsocket hne
          (hlength.trans hle.1) (hlength.trans hle.2))
  · exact .refl

/-- The part of `check_tcp_socket` behind the connection. -/
theorem transfer_effects (hs : s.Consistent) (hlisten : s.state ≠ .LISTEN) (hsocket : s.socket = true) :
    TcpEffects P s (s.transfer e config) := by
  have hclose := hs.ne_close hsocket
  have hforward : ∀ result : TcpSession × Bool,
      result = (if e.output then forwardLoop e.tun e.sends (s.get_receive_buffer e.before) false s else (s, false)) →
      TcpEffects P s result.1 ∧ result.1.socket = true ∧ (result.1.state = s.state ∨ result.1.state = .CLOSING) ∧
        (result.2 = true → result.1.state ≠ .CLOSING → HasJustSent result.1.log) := by
    rintro _ rfl
    split
    · exact forwardLoop_effects hlisten hclose hsocket e.sends (by simp)
    · exact ⟨.refl, hsocket, .inl rfl, by simp⟩
  rw [transfer]
  generalize hresult : (if e.output then forwardLoop e.tun e.sends (s.get_receive_buffer e.before) false s
    else (s, false)) = result
  obtain ⟨heffects, hopen, hstate, hfwd⟩ := hforward result hresult.symm
  obtain ⟨t, fwd⟩ := result
  have hgoes : ∀ state, state ≠ TcpState.CLOSING → s.state ≠ state → t.state ≠ state := by
    intro state hne hs
    rcases hstate with hstate | hstate
    · rwa [hstate]
    · rw [hstate]
      exact hne.symm
  obtain ⟨hack, hackOpen, -⟩ :=
    acknowledge_effects (P := P) e (hgoes .LISTEN (by simp) hlisten) (hgoes .CLOSE (by simp) hclose) hopen hfwd
  dsimp only
  split
  · rename_i htransfers
    exact (heffects.trans hack).trans (receive_effects config e htransfers hackOpen)
  · exact heffects.trans hack

/-- The events of a socket lead to the handshake, or to data in both directions. -/
theorem socket_effects (hs : s.Consistent) (hsocket : s.socket = true) :
    TcpEffects P s (s.check_tcp_socket e config) := by
  rw [check_tcp_socket]
  split
  · exact (quiet_effects hs.waiting e.now _ _ _).trans (write_rst_effects _ _)
  · split
    · rename_i hstate
      exact connect_effects config e hs hstate hsocket
    · rename_i hstate
      exact transfer_effects config e hs hstate hsocket

end transfer

section handle

variable {now : Int} {p : TcpPacket}

/-- A FIN of the app is acknowledged at once, or noted until the queue is empty. -/
theorem handleFin_effects (hs : s.Consistent) (hp : P s.remote_start s.log p) (hfin : p.fin = true) :
    TcpEffects P s (s.handleFin tun) := by
  rw [handleFin, write_ack]
  have hcases := writeOrClose_cases { s with remote_seq := s.remote_seq + 1 } tun [] false true false
  split
  · rename_i hstate
    split
    · rename_i hforward
      have heffect : ∀ whole, TcpEffects P s _ :=
        fun whole => .single (.fin s whole p hp hfin (.inl ⟨hstate, hforward⟩))
      rcases hcases with heq | heq
      · rw [heq]
        have hwhole := heffect true
        simpa [logged, hstate] using hwhole
      · rw [heq]
        have hpart := heffect false
        simpa [logged] using hpart
    · rename_i hforward
      exact .single (.finQueued s p hp hfin hstate hforward)
  · rename_i hstate
    have hsocket := hs.finished (.inl hstate)
    have heffect : ∀ whole, TcpEffects P s _ := fun whole => .single (.fin s whole p hp hfin (.inr ⟨hstate, hsocket⟩))
    rcases hcases with heq | heq
    · rw [heq]
      have hwhole := heffect true
      simpa [logged, hstate] using hwhole
    · rw [heq]
      have hpart := heffect false
      simpa [logged] using hpart
  · exact .refl

/-- An acknowledgement moves the session on without a segment to the app. -/
theorem handleAck_effects (hp : P s.remote_start s.log p) (hack : p.ack_seq = s.local_seq) :
    TcpEffects P s (s.handleAck p) := by
  have hacked : TcpEffects P s { s with acked := p.ack_seq } := .single (.acked s p hp (.inl hack))
  rw [handleAck]
  dsimp only
  split
  · rename_i hstate
    exact hacked.tail (.established _ hstate hack)
  · rename_i hstate
    exact hacked.tail (.closing _ (by simp [hstate]))
  · exact hacked

/-- A packet with the expected acknowledgement is a repeated SYN, a FIN or a bare
acknowledgement. -/
theorem handleCurrent_effects (hs : s.Consistent) (hp : P s.remote_start s.log p)
    (hack : p.ack = true → p.ack_seq = s.local_seq) : TcpEffects P s (s.handleCurrent tun p) := by
  rw [handleCurrent]
  split
  · exact .refl
  · split
    · rename_i hfin
      exact handleFin_effects hs hp hfin
    · split
      · rename_i hacks
        exact handleAck_effects hp (hack hacks)
      · exact .refl

/-- A packet with another acknowledgement is ignored, moves the window on or resets the session. -/
theorem handleOther_effects (hp : P s.remote_start s.log p) : TcpEffects P s (s.handleOther tun p) := by
  rw [handleOther]
  split
  · exact .refl
  · split
    · rename_i hbelow
      split
      · exact .refl
      · rename_i habove
        exact .single (.acked s p hp (.inr ⟨hbelow, Int.not_le.mp habove⟩))
    · exact write_rst_effects s tun

/-- The data of a packet goes to the queue before its flags are looked at. -/
theorem queue_effects (hs : s.Consistent) (hp : P s.remote_start s.log p) (hclosing : s.state ≠ .CLOSING)
    (hclose : s.state ≠ .CLOSE) (hopen : p.data ≠ [] → s.socket = true ∧ s.state ≠ .CLOSE_WAIT) :
    TcpEffects P s (s.queue p) := by
  rw [queue]
  split
  · exact .refl
  · rename_i hdata
    obtain ⟨hsocket, hwait⟩ := hopen hdata
    refine .single (.queue s p hp hdata hsocket ?_)
    have hfinished : ¬(s.state = .FIN_WAIT1 ∨ s.state = .LAST_ACK) := by
      intro hfinished
      rw [hs.finished hfinished] at hsocket
      cases hsocket
    revert hfinished hwait hclosing hclose
    cases s.state <;> simp

/-- A packet of the app has the effects of its data and then those of its flags. -/
theorem handle_effects (hs : s.Consistent) (hp : P s.remote_start s.log p) :
    TcpEffects P s (s.handle_tcp tun now p) := by
  rw [handle_tcp]
  split
  · exact .refl
  · split
    · exact write_rst_effects s tun
    · rename_i hopen
      obtain ⟨hclosing, hclose⟩ := not_or.mp hopen
      have harrive : TcpEffects P s (s.arrive now p) :=
        (quiet_effects hs.waiting (if p.syn then s.time else now) _ _ _).tail (.window _ p hp)
      have harrived : (s.arrive now p).Consistent := ⟨hs.closed, hs.finished, hs.waiting⟩
      dsimp only
      split
      · exact harrive.trans (write_rst_effects _ _)
      · rename_i haccepted
        have hqueue : TcpEffects P s ((s.arrive now p).queue p) := by
          refine harrive.trans (queue_effects harrived hp hclosing hclose fun hdata => ?_)
          by_contra hrefused
          refine haccepted ⟨hdata, ?_⟩
          by_contra hstate
          rw [not_or] at hstate
          exact hrefused ⟨by simpa using hstate.1, hstate.2⟩
        have hqueued : ((s.arrive now p).queue p).Consistent ∧
          ((s.arrive now p).queue p).remote_start = s.remote_start ∧
            ((s.arrive now p).queue p).log = s.log ∧ ((s.arrive now p).queue p).state = s.state := by
          rw [queue]
          split
          · exact ⟨harrived, rfl, rfl, rfl⟩
          · exact ⟨⟨hs.closed, hs.finished, hs.waiting⟩, rfl, rfl, rfl⟩
        obtain ⟨hconsistent, hstart, hlog, hstate⟩ := hqueued
        split
        · exact hqueue.tail (.closing _ (by rwa [hstate]))
        · split
          · rename_i hcurrent
            refine hqueue.trans (handleCurrent_effects hconsistent (by rwa [hstart, hlog]) fun hack => ?_)
            exact hcurrent.resolve_left (by simp [hack])
          · exact hqueue.trans (handleOther_effects (by rwa [hstart, hlog]))

end handle

/-- Every action of a session is a sequence of single effects. -/
theorem step_effects {config : NativeConfig} {a : Action} {next : TcpSession} (hs : s.Consistent)
    (hpacket : ∀ tun now p, a = .packet tun now p → P s.remote_start s.log p) (hstep : step config s a = .ok next) :
    TcpEffects P s next := by
  cases a with
  | monitor m =>
    simp only [step] at hstep
    split at hstep
    · cases hstep
    · split at hstep
      · rename_i hsocket
        cases hstep
        exact monitor_effects m hs hsocket
      · cases hstep
  | check c =>
    simp only [step] at hstep
    split at hstep
    · cases hstep
    · cases hstep
      exact check_effects c
  | disallow tun =>
    simp only [step] at hstep
    split at hstep
    · cases hstep
    · cases hstep
      split
      · exact write_rst_effects s tun
      · exact .refl
  | socket e =>
    simp only [step] at hstep
    split at hstep
    · cases hstep
    · split at hstep
      · rename_i hsocket
        cases hstep
        exact socket_effects config e hs hsocket
      · cases hstep
  | packet tun now p =>
    simp only [step] at hstep
    split at hstep
    · cases hstep
    · cases hstep
      exact handle_effects hs (hpacket tun now p rfl)

/-- Every effect keeps the socket and the state in step with each other. -/
theorem Consistent.effect {next : TcpSession} (hs : s.Consistent) (heffect : TcpEffect P s next) : next.Consistent := by
  cases heffect with
  | quiet time recv_window last_keep_alive socks5 ev hsocks5 => exact ⟨hs.closed, hs.finished, hsocks5⟩
  | window | queue | send | plain | keepAlive | acked | account | free | socks5 =>
    exact ⟨hs.closed, hs.finished, hs.waiting⟩
  | refuse | closing => exact ⟨by simp, by simp, by simp⟩
  | synAck whole => cases whole <;> exact ⟨by simp, by simp, by simp⟩
  | confirmFin whole => cases whole <;> exact ⟨by simp, by simp, by simp⟩
  | fin whole p hp hfin hstate =>
    rcases hstate with ⟨hstate, -⟩ | ⟨hstate, hsocket⟩
    · cases whole <;> exact ⟨by simp [hstate], by simp [hstate], by simp [hstate]⟩
    · cases whole <;> exact ⟨fun _ => hsocket, fun _ => hsocket, by simp [hstate]⟩
  | finQueued | established => exact ⟨by simp, by simp, by simp⟩
  | download data passed whole hstate =>
    rcases hstate with hstate | hstate <;> cases whole <;> exact ⟨by simp [hstate], by simp [hstate], by simp [hstate]⟩
  | serverFin whole hstate =>
    rcases hstate with hstate | hstate <;> cases whole <;> exact ⟨fun _ => rfl, fun _ => rfl, by simp [hstate]⟩
  | close hstate => exact ⟨fun _ => rfl, fun _ => rfl, by simp [hstate]⟩
  | closed hstate hsocket => exact ⟨fun _ => hsocket, fun _ => hsocket, by simp⟩

/-- The two numbers that a session begins with, and whose session it is, stay. -/
theorem effect_start {next : TcpSession} (heffect : TcpEffect P s next) :
    next.remote_start = s.remote_start ∧ next.local_start = s.local_start ∧ next.key = s.key := by
  cases heffect <;> exact ⟨rfl, rfl, rfl⟩

/-- What a session has done is not undone. -/
theorem log_isPrefix_of_effect {next : TcpSession} (heffect : TcpEffect P s next) : s.log <+: next.log := by
  cases heffect with
  | quiet | window | queue | closing | finQueued | acked | established | closed | free => exact List.prefix_rfl
  | send | plain | keepAlive | refuse | synAck | confirmFin | fin | download | serverFin | close | account | socks5 =>
    exact List.prefix_append _ _

/-- The packets of the app keep the promise. -/
def Keeps (P : Promise) (s : TcpSession) (a : Action) : Prop :=
  ∀ tun now p, a = .packet tun now p → P s.remote_start s.log p

/-- A session for a SYN begins with its socket open. -/
theorem consistent_new (key : SessionKey) (p : TcpPacket) (options : TcpOptions) (now : Int) (rand : BitVec 32)
    (buffer : SendBuffer) : (new key p options now rand buffer).Consistent :=
  ⟨by simp [new], by simp [new], by simp [new]⟩

/-- What the single effects preserve, a run of a session preserves. -/
theorem run_effects {config : NativeConfig} {I : TcpSession → Prop} {actions : List Action} {final : TcpSession}
    (heffect : ∀ s next, s.Consistent → I s → TcpEffect P s next → I next) (hs : s.Consistent) (hinit : I s)
    (halong : Along (step config) (Keeps P) s actions) (hrun : run (step config) s actions = .ok final) :
    final.Consistent ∧ I final := by
  refine run_along (I := fun s => s.Consistent ∧ I s) ?_ ⟨hs, hinit⟩ halong hrun
  rintro s a next ⟨hconsistent, hinvariant⟩ hkeeps hstep
  refine invariant_of_reflTransGen (I := fun s => s.Consistent ∧ I s) ?_ ⟨hconsistent, hinvariant⟩
    (step_effects hconsistent hkeeps hstep)
  rintro t u ⟨ht, hi⟩ hu
  exact ⟨ht.effect hu, heffect t u ht hi hu⟩

/-- What the single effects preserve whatever the packets are, every run preserves. -/
theorem run_any_effects {config : NativeConfig} {I : TcpSession → Prop} {actions : List Action} {final : TcpSession}
    (heffect : ∀ s next, s.Consistent → I s → TcpEffect (fun _ _ _ => True) s next → I next) (hs : s.Consistent)
    (hinit : I s) (hrun : run (step config) s actions = .ok final) : final.Consistent ∧ I final :=
  run_effects heffect hs hinit (along_of_forall (fun _ _ _ _ _ _ => trivial) s actions) hrun

/-- Whatever was done in a run is never taken back in the rest of it. -/
theorem log_isPrefix_of_run {config : NativeConfig} {actions : List Action} {final : TcpSession} (hs : s.Consistent)
    (hrun : run (step config) s actions = .ok final) : final.Consistent ∧ s.log <+: final.log :=
  run_any_effects (I := fun t => s.log <+: t.log)
    (fun _ _ _ hlog heffect => hlog.trans (log_isPrefix_of_effect heffect)) hs List.prefix_rfl hrun

end TcpSession

end inspector.netguard.jni
