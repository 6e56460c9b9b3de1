import Inspector.NetguardJni.TcpDownstream

open machine

namespace inspector.netguard.jni

def TcpEvent.accountedSent : TcpEvent → BitVec 64
  | .account_usage sent _ => sent
  | _ => 0

def TcpEvent.accountedReceived : TcpEvent → BitVec 64
  | .account_usage _ received => received
  | _ => 0

/-- An event that needs the socket. -/
def TcpEvent.Uses : TcpEvent → Prop
  | .send _ | .recv _ | .socks5 _ | .close => True
  | _ => False

/-- The socket is used and closed only as long as it is open, and the usage is told behind that. -/
def UsesOpen (before : List TcpEvent) (event : TcpEvent) : Prop :=
  (event.Uses → .close ∉ before) ∧ (∀ sent received, event = .account_usage sent received → .close ∈ before)

theorem usesOpen_tun (before : List TcpEvent) (segment : TcpSegment) (whole : Bool) :
    UsesOpen before (.tun segment whole) :=
  ⟨fun huses => huses.elim, by simp⟩

theorem usesOpen_of_notMem {before : List TcpEvent} (hopen : .close ∉ before) {event : TcpEvent}
    (hevent : ∀ sent received, event ≠ .account_usage sent received) : UsesOpen before event :=
  ⟨fun _ => hopen, fun sent received heq => absurd heq (hevent sent received)⟩

namespace TcpSession

/-- The counters of a session with what was told of them, and its socket. -/
structure Accounted (s : TcpSession) : Prop where
  sent : (s.log.map TcpEvent.accountedSent).sum + s.sent = BitVec.ofNat 64 (sentBytes s.log).length
  received : (s.log.map TcpEvent.accountedReceived).sum + s.received = BitVec.ofNat 64 (receivedBytes s.log).length
  socket : s.log.count .close = if s.socket then 0 else 1
  uses : Law UsesOpen s.log
  freed : s.freed = true → s.sent = 0 ∧ s.received = 0 ∧ s.socket = false

variable {s next : TcpSession} {P : Promise}

/-- Segments to the app count for nothing, and need no socket. -/
theorem Accounted.keep (hs : s.Accounted) (hsent : next.sent = s.sent) (hreceived : next.received = s.received)
    (hsocket : next.socket = s.socket) (hfreed : next.freed = s.freed)
    (hlog : next.log = s.log ∨ ∃ segment whole, next.log = s.log ++ [.tun segment whole]) : next.Accounted := by
  rcases hlog with hlog | ⟨segment, whole, hlog⟩
  · refine ⟨?_, ?_, ?_, ?_, ?_⟩
    · rw [hlog, hsent, hs.sent]
    · rw [hlog, hreceived, hs.received]
    · rw [hlog, hsocket, hs.socket]
    · rw [hlog]
      exact hs.uses
    · rw [hsent, hreceived, hsocket, hfreed]
      exact hs.freed
  · refine ⟨?_, ?_, ?_, ?_, ?_⟩
    · simpa [hlog, hsent, TcpEvent.accountedSent, TcpEvent.toServer] using hs.sent
    · simpa [hlog, hreceived, TcpEvent.accountedReceived, TcpEvent.fromServer] using hs.received
    · simpa [hlog, hsocket] using hs.socket
    · rw [hlog, Law.snoc_iff]
      exact ⟨hs.uses, usesOpen_tun _ _ _⟩
    · rw [hsent, hreceived, hsocket, hfreed]
      exact hs.freed

theorem Accounted.close_notMem (hs : s.Accounted) (hsocket : s.socket = true) : .close ∉ s.log := by
  have hnone := hs.socket
  rw [hsocket, if_pos rfl] at hnone
  exact List.count_eq_zero.mp hnone

theorem Accounted.close_mem (hs : s.Accounted) (hsocket : s.socket = false) : .close ∈ s.log := by
  have hone := hs.socket
  rw [hsocket, if_neg Bool.false_ne_true] at hone
  exact List.count_pos_iff.mp (by omega)

theorem Accounted.not_freed (hs : s.Accounted) (hsocket : s.socket = true) : s.freed ≠ true := by
  intro hfreed
  have hclosed := (hs.freed hfreed).2.2
  rw [hsocket] at hclosed
  cases hclosed

theorem Accounted.effect (hs : s.Accounted) (hconsistent : s.Consistent) (heffect : TcpEffect P s next) :
    next.Accounted := by
  cases heffect with
  | quiet | window | queue | acked | established | closing | closed | finQueued =>
    exact hs.keep rfl rfl rfl rfl (.inl rfl)
  | plain | keepAlive | refuse | synAck | confirmFin | fin => exact hs.keep rfl rfl rfl rfl (.inr ⟨_, _, rfl⟩)
  | send first rest count hforward hseq hcount hsocket =>
    have hnew := hs.close_notMem hsocket
    have htaken : ((first.data.drop first.sent).take count).length = count := by simp; omega
    refine ⟨?_, ?_, ?_, ?_, ?_⟩
    · have hbytes : (sentBytes (s.sendFirst first rest count).log).length = (sentBytes s.log).length + count := by
        simp only [sendFirst, sentBytes_append, List.length_append, List.flatMap_cons, List.flatMap_nil,
          TcpEvent.toServer, List.append_nil, htaken]
      rw [hbytes, BitVec.ofNat_add, ← hs.sent]
      simp [sendFirst, TcpEvent.accountedSent, BitVec.add_assoc]
    · simpa [sendFirst, TcpEvent.accountedReceived, TcpEvent.fromServer] using hs.received
    · exact (List.count_append ..).trans hs.socket
    · exact Law.snoc_iff.mpr ⟨hs.uses, usesOpen_of_notMem hnew (by simp)⟩
    · exact fun hfreed => absurd hfreed (hs.not_freed hsocket)
  | download data passed whole hstate hsocket =>
    have hnew := hs.close_notMem hsocket
    refine ⟨?_, ?_, ?_, ?_, ?_⟩
    · simpa [TcpEvent.accountedSent, TcpEvent.toServer] using hs.sent
    · have hbytes : (receivedBytes
        (s.log ++ [.recv data, .tun (s.segment passed false true false false) whole])).length =
          (receivedBytes s.log).length + data.length := by simp [TcpEvent.fromServer]
      rw [hbytes, BitVec.ofNat_add, ← hs.received]
      simp [TcpEvent.accountedReceived, BitVec.add_assoc]
    · simpa using hs.socket
    · have hlaw : Law UsesOpen ((s.log ++ [.recv data]) ++ [.tun (s.segment passed false true false false) whole]) :=
        Law.snoc_iff.mpr ⟨Law.snoc_iff.mpr ⟨hs.uses, usesOpen_of_notMem hnew (by simp)⟩, usesOpen_tun _ _ _⟩
      simpa using hlaw
    · exact fun hfreed => absurd hfreed (hs.not_freed hsocket)
  | serverFin whole hstate hsocket hforward =>
    have hnew := hs.close_notMem hsocket
    refine ⟨?_, ?_, ?_, ?_, ?_⟩
    · simpa [TcpEvent.accountedSent, TcpEvent.toServer] using hs.sent
    · simpa [TcpEvent.accountedReceived, TcpEvent.fromServer] using hs.received
    · simp [List.count_eq_zero.mpr hnew]
    · have hlaw : Law UsesOpen ((s.log ++ [.tun (s.segment [] false true true false) whole]) ++ [.close]) :=
        Law.snoc_iff.mpr ⟨Law.snoc_iff.mpr ⟨hs.uses, usesOpen_tun _ _ _⟩,
          usesOpen_of_notMem (by simpa using hnew) (by simp)⟩
      simpa using hlaw
    · exact fun hfreed => absurd hfreed (hs.not_freed hsocket)
  | close hstate hsocket =>
    have hnew := hs.close_notMem hsocket
    refine ⟨?_, ?_, ?_, ?_, ?_⟩
    · simpa [TcpEvent.accountedSent, TcpEvent.toServer] using hs.sent
    · simpa [TcpEvent.accountedReceived, TcpEvent.fromServer] using hs.received
    · simp [List.count_eq_zero.mpr hnew]
    · exact Law.snoc_iff.mpr ⟨hs.uses, usesOpen_of_notMem hnew (by simp)⟩
    · exact fun hfreed => absurd hfreed (hs.not_freed hsocket)
  | account hstate =>
    have hclosed := hconsistent.closed hstate
    have hgone := hs.close_mem hclosed
    refine ⟨?_, ?_, ?_, ?_, ?_⟩
    · simpa [TcpEvent.accountedSent, TcpEvent.toServer] using hs.sent
    · simpa [TcpEvent.accountedReceived, TcpEvent.fromServer] using hs.received
    · simpa using hs.socket
    · exact Law.snoc_iff.mpr ⟨hs.uses, fun huses => huses.elim, fun _ _ _ => hgone⟩
    · exact fun _ => ⟨rfl, rfl, hclosed⟩
  | free hstate hsent hreceived =>
    exact ⟨hs.sent, hs.received, hs.socket, hs.uses, fun _ => ⟨hsent, hreceived, hconsistent.closed hstate⟩⟩
  | socks5 data hsocket =>
    have hnew := hs.close_notMem hsocket
    refine ⟨?_, ?_, ?_, ?_, hs.freed⟩
    · simpa [logged, TcpEvent.accountedSent, TcpEvent.toServer] using hs.sent
    · simpa [logged, TcpEvent.accountedReceived, TcpEvent.fromServer] using hs.received
    · exact (List.count_append ..).trans hs.socket
    · exact Law.snoc_iff.mpr ⟨hs.uses, usesOpen_of_notMem hnew (by simp)⟩

section run

variable {config : NativeConfig} {key : SessionKey} {p : TcpPacket} {options : TcpOptions} {now : Int}
  {rand : BitVec 32}
  {buffer : SendBuffer} {actions : List Action} {final : TcpSession}

/-- In every run the socket is closed at most once, and nothing is sent, received or closed
behind that. What was sent and received, and nothing else, is told as usage behind it, until a
session that is freed has told all of it and closed its socket. -/
theorem accounted_of_run (hrun : run (step config) (new key p options now rand buffer) actions = .ok final) :
    final.log.count .close ≤ 1 ∧ Law UsesOpen final.log ∧
      (final.log.map TcpEvent.accountedSent).sum + final.sent = BitVec.ofNat 64 (sentBytes final.log).length ∧
      (final.log.map TcpEvent.accountedReceived).sum + final.received =
        BitVec.ofNat 64 (receivedBytes final.log).length ∧
      (final.freed = true → final.sent = 0 ∧ final.received = 0 ∧ final.log.count .close = 1) := by
  obtain ⟨-, hfinal⟩ := run_any_effects (I := Accounted)
    (fun s next hconsistent hs heffect => hs.effect hconsistent heffect)
    (consistent_new key p options now rand buffer) ⟨rfl, rfl, rfl, Law.nil _, by simp [new]⟩ hrun
  refine ⟨?_, hfinal.uses, hfinal.sent, hfinal.received, fun hfreed => ?_⟩
  · rw [hfinal.socket]
    split <;> decide
  · obtain ⟨hsent, hreceived, hsocket⟩ := hfinal.freed hfreed
    exact ⟨hsent, hreceived, by rw [hfinal.socket, hsocket]; rfl⟩

/-- The time comes at which a session is closed, and the one at which it is freed. -/
def lateCheck (now : Int) : Action :=
  .check { now, later := now, sessions := 0, maxsessions := 1024, tun := fun _ => true }

theorem replied_accounted :
    ∃ final, run (step plainConfig) swappedSession (repliedActions ++ [lateCheck 100, lateCheck 500]) =
      .ok final ∧ final.log.count .close ≤ 1 ∧ Law UsesOpen final.log ∧
      (final.log.map TcpEvent.accountedSent).sum + final.sent = BitVec.ofNat 64 (sentBytes final.log).length ∧
      (final.log.map TcpEvent.accountedReceived).sum + final.received =
        BitVec.ofNat 64 (receivedBytes final.log).length ∧
      (final.freed = true → final.sent = 0 ∧ final.received = 0 ∧ final.log.count .close = 1) := by
  obtain ⟨final, hrun⟩ : ∃ final,
    run (step plainConfig) swappedSession (repliedActions ++ [lateCheck 100, lateCheck 500]) =
      .ok final := ⟨_, rfl⟩
  exact ⟨final, hrun, accounted_of_run hrun⟩

end run

end TcpSession

end inspector.netguard.jni
