import Inspector.NetguardJni.TcpStep

/-! No call but a check frees a session. -/

namespace inspector.netguard.jni

namespace TcpSession

variable {s : TcpSession} {tun : Tun}

/-- A segment that is written, or fails to be, does not free the session. -/
@[simp] theorem freed_writeOrClose (data : List UInt8) (syn ack fin : Bool) :
    (s.writeOrClose tun data syn ack fin).1.freed = s.freed := by
  rcases writeOrClose_cases s tun data syn ack fin with heq | heq <;> rw [heq] <;> rfl

/-- Nor does a reset. -/
@[simp] theorem freed_write_rst : (s.write_rst tun).freed = s.freed := by
  by_cases hlisten : s.state = .LISTEN
  · rw [write_rst_of_listen hlisten]
  · by_cases hclose : s.state = .CLOSE
    · rw [write_rst_of_close hclose]
      rfl
    · rw [write_rst_of_open hlisten hclose]
      rfl

@[simp] theorem freed_keepAlive (m : Monitor) : (s.keepAlive m).freed = s.freed := by
  rw [keepAlive]
  split
  · simp [write_ack]
  · rfl

@[simp] theorem freed_monitorEvents (m : Monitor) : (s.monitorEvents m).1.freed = s.freed := by
  rw [monitorEvents]
  split
  · rfl
  · split <;> simp
  · split <;> simp
  · rfl

/-- The choice of the events to wait for frees no session. -/
theorem freed_monitor (m : Monitor) : (s.monitor_tcp_session m).freed = s.freed := by
  rw [monitor_tcp_session]
  dsimp only
  split
  · split <;> simp
  · simp

section socket

variable (config : NativeConfig) (e : SocketEvent)

@[simp] theorem freed_readConnect : (s.readConnect config e).freed = s.freed := by
  rw [readConnect]
  split
  · split <;> rfl
  · split
    · split
      · dsimp only
        split <;> simp
      · simp
    · rfl

@[simp] theorem freed_establish : (s.establish e).freed = s.freed := by
  rw [establish, write_syn_ack]
  dsimp only
  split <;> simp

/-- The handshake with the proxy frees no session. -/
@[simp] theorem freed_sendConnect : (s.sendConnect config e).freed = s.freed := by
  rw [sendConnect]
  split
  · dsimp only
    split <;> simp
  · dsimp only
    split <;> simp
  · dsimp only
    split <;> simp
  · simp
  · rfl

/-- Handing data on to the server frees no session, however many sends it takes. -/
@[simp] theorem freed_forwardLoop (results : List SendResult) (buffer_size : Nat) (fwd : Bool) :
    (forwardLoop tun results buffer_size fwd s).1.freed = s.freed := by
  induction results generalizing s buffer_size fwd with
  | nil => rfl
  | cons result results ih =>
    rw [forwardLoop]
    split
    · rfl
    · split
      · split
        · rfl
        · simp
        · dsimp only
          split
          · rw [ih, sendFirst]
          · rfl
      · rfl

@[simp] theorem freed_acknowledge (fwd : Bool) : (s.acknowledge e fwd).freed = s.freed := by
  rw [acknowledge]
  dsimp only
  split
  · split <;> split <;> simp [write_ack]
  · rfl

@[simp] theorem freed_receiveEnd : (s.receiveEnd e).freed = s.freed := by
  rw [receiveEnd, closeSocket]
  dsimp only
  split
  · split <;> split <;> simp [write_fin_ack]
  · simp

@[simp] theorem freed_receiveData (data : List UInt8) : (s.receiveData e config data).freed = s.freed := by
  rw [receiveData]
  dsimp only
  split <;> simp [write_data]

/-- Data of the server frees no session. -/
@[simp] theorem freed_receive : (s.receive e config).freed = s.freed := by
  rw [receive]
  dsimp only
  split
  · generalize (if s.get_send_window > s.mss.setWidth 32 then s.mss.toNat else s.get_send_window.toNat) = size
    split
    · rfl
    · simp
    · split <;> simp
  · rfl

/-- The events of a socket free no session. -/
theorem freed_check_tcp_socket : (s.check_tcp_socket e config).freed = s.freed := by
  rw [check_tcp_socket]
  split
  · simp
  · split
    · simp
    · rw [transfer]
      dsimp only
      split <;> split <;> simp

end socket

section handle

variable (now : Int) (p : TcpPacket)

/-- A FIN of the app frees no session yet. -/
@[simp] theorem freed_handleFin : (s.handleFin tun).freed = s.freed := by
  rw [handleFin]
  split
  · split
    · dsimp only
      split <;> simp [write_ack]
    · rfl
  · dsimp only
    split <;> simp [write_ack]
  · rfl

@[simp] theorem freed_handleCurrent : (s.handleCurrent tun p).freed = s.freed := by
  rw [handleCurrent]
  split
  · rfl
  · split
    · simp
    · split
      · rw [handleAck]
        dsimp only
        split <;> rfl
      · rfl

@[simp] theorem freed_handleOther : (s.handleOther tun p).freed = s.freed := by
  rw [handleOther]
  split
  · rfl
  · split
    · split <;> rfl
    · simp

/-- A packet that goes to the queue frees no session. -/
theorem freed_queue : (s.queue p).freed = s.freed := by
  rw [queue]
  split <;> rfl

/-- A packet of the app frees no session, so that only the check does so. -/
theorem freed_handle_tcp : (s.handle_tcp tun now p).freed = s.freed := by
  rw [handle_tcp]
  split
  · rfl
  · split
    · simp
    · dsimp only
      split
      · simp [arrive]
      · split
        · exact freed_queue p
        · split
          · simp [freed_queue, arrive]
          · simp [freed_queue, arrive]

end handle

end TcpSession

end inspector.netguard.jni
