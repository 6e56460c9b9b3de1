import Inspector.NetguardJni.TcpUpstream

open machine serial

namespace inspector.netguard.jni

def TcpEvent.toApp : TcpEvent → List UInt8
  | .tun segment whole => if whole then segment.data else []
  | _ => []

def TcpEvent.fromServer : TcpEvent → List UInt8
  | .recv data => data
  | _ => []

/-- The data of the segments that were written to the app in full. -/
def writtenBytes (log : List TcpEvent) : List UInt8 := log.flatMap TcpEvent.toApp

def receivedBytes (log : List TcpEvent) : List UInt8 := log.flatMap TcpEvent.fromServer

@[simp] theorem writtenBytes_append (log events : List TcpEvent) :
    writtenBytes (log ++ events) = writtenBytes log ++ events.flatMap TcpEvent.toApp := List.flatMap_append ..

@[simp] theorem receivedBytes_append (log events : List TcpEvent) :
    receivedBytes (log ++ events) = receivedBytes log ++ events.flatMap TcpEvent.fromServer := List.flatMap_append ..

/-- With this data behind what was written, the app has all that was received. Responses of a
name server may differ in their bytes. -/
def Completes (dest : BitVec 16) (log : List TcpEvent) (data : List UInt8) : Prop :=
  (writtenBytes log ++ data).length = (receivedBytes log).length ∧
    (dest ≠ 53 → writtenBytes log ++ data = receivedBytes log)

/-- The SYN has the first number. Data and the FIN have the number that the bytes written
before them lead to, and leave out nothing that was received. -/
def Continues (start : BitVec 32) (dest : BitVec 16) (before : List TcpEvent) : TcpEvent → Prop
  | .tun segment _ => (segment.syn = true → segment.seq = start) ∧
      (segment.data ≠ [] ∨ segment.fin = true →
        segment.seq = number (start + 1) (writtenBytes before).length ∧ Completes dest before segment.data)
  | _ => True

/-- An event that moves no data between the server and the app. -/
def TcpEvent.Bare : TcpEvent → Prop
  | .tun segment _ => segment.syn = false ∧ segment.fin = false ∧ segment.data = []
  | .recv _ => False
  | _ => True

namespace TcpSession

structure Downstream (s : TcpSession) : Prop where
  waits : s.state = .LISTEN → s.local_seq = s.local_start ∧ receivedBytes s.log = []
  opened : s.state = .SYN_RECV ∨ s.Transfers → s.local_seq = number (s.local_start + 1) (writtenBytes s.log).length
  complete : s.state = .LISTEN ∨ s.state = .SYN_RECV ∨ s.Transfers → Completes s.key.dest s.log []
  continues : Law (Continues s.local_start s.key.dest) s.log
  begins : (writtenBytes s.log).length ≤ (receivedBytes s.log).length ∧
    (s.key.dest ≠ 53 → writtenBytes s.log <+: receivedBytes s.log)

section downstream

variable {s next : TcpSession} {P : Promise}

theorem bare_append (start : BitVec 32) (dest : BitVec 16) (log : List TcpEvent) {events : List TcpEvent}
    (hevents : ∀ event ∈ events, event.Bare) : writtenBytes (log ++ events) = writtenBytes log ∧
      receivedBytes (log ++ events) = receivedBytes log ∧
      (Law (Continues start dest) (log ++ events) ↔ Law (Continues start dest) log) := by
  have hbare : ∀ event ∈ events, event.toApp = [] ∧ event.fromServer = [] ∧ ∀ before,
    Continues start dest before event := by
    intro event hevent
    have h := hevents event hevent
    cases event with
    | tun segment whole =>
      obtain ⟨hsyn, hfin, hdata⟩ := h
      refine ⟨?_, rfl, fun before => ?_⟩
      · simp [TcpEvent.toApp, hdata]
      · simp [Continues, hsyn, hfin, hdata]
    | recv data => exact h.elim
    | send | socks5 | account_usage | close => exact ⟨rfl, rfl, fun _ => trivial⟩
  have hwritten : events.flatMap TcpEvent.toApp = [] := List.flatMap_eq_nil_iff.mpr fun e he => (hbare e he).1
  have hreceived : events.flatMap TcpEvent.fromServer = [] := List.flatMap_eq_nil_iff.mpr fun e he => (hbare e he).2.1
  refine ⟨by simp [hwritten], by simp [hreceived], Law.append_iff_of_forall fun e he => (hbare e he).2.2⟩

theorem Downstream.keep (hs : s.Downstream) (hseq : next.local_seq = s.local_seq)
    (hstart : next.local_start = s.local_start)
    (hkey : next.key = s.key) (events : List TcpEvent) (hlog : next.log = s.log ++ events)
    (hevents : ∀ event ∈ events, event.Bare) (hlisten : next.state = .LISTEN → s.state = .LISTEN)
    (hopen : next.state = .SYN_RECV ∨ next.Transfers → s.state = .SYN_RECV ∨ s.Transfers) : next.Downstream := by
  obtain ⟨hwritten, hreceived, hlaw⟩ := bare_append s.local_start s.key.dest s.log hevents
  rw [← hlog] at hwritten hreceived hlaw
  have hcompletes : Completes next.key.dest next.log [] ↔ Completes s.key.dest s.log [] := by
    rw [Completes, Completes, hwritten, hreceived, hkey]
  refine ⟨?_, ?_, ?_, ?_, ?_⟩
  · rw [hseq, hstart, hreceived]
    exact fun hstate => hs.waits (hlisten hstate)
  · rw [hseq, hstart, hwritten]
    exact fun hstate => hs.opened (hopen hstate)
  · rw [hcompletes]
    rintro (hstate | hstate)
    · exact hs.complete (.inl (hlisten hstate))
    · exact hs.complete (.inr (hopen hstate))
  · rw [hstart, hkey]
    exact hlaw.mpr hs.continues
  · rw [hwritten, hreceived, hkey]
    exact hs.begins

/-- The answer to the SYN. -/
theorem Downstream.synAck (hs : s.Downstream) (whole : Bool) (hstate : s.state = .LISTEN) :
    Downstream { s with
      socks5 := .CONNECTED
      remote_seq := s.remote_seq + 1
      local_seq := if whole then s.local_seq + 1 else s.local_seq
      state := if whole then .SYN_RECV else .CLOSING
      log := s.log ++ [.tun ({ s with remote_seq := s.remote_seq + 1 }.segment [] true true false false) whole] } := by
  obtain ⟨hseq, hreceived⟩ := hs.waits hstate
  obtain ⟨hlength, hsame⟩ := hs.complete (.inl hstate)
  have hempty : writtenBytes s.log = [] := by
    rw [hreceived, List.append_nil] at hlength
    exact List.eq_nil_of_length_eq_zero hlength
  have hwritten : writtenBytes
    (s.log ++ [.tun ({ s with remote_seq := s.remote_seq + 1 }.segment [] true true false false)
      whole]) = [] := by simp [hempty, TcpEvent.toApp, segment]
  have hstill : receivedBytes
    (s.log ++ [.tun ({ s with remote_seq := s.remote_seq + 1 }.segment [] true true false false)
      whole]) = [] := by simp [hreceived, TcpEvent.fromServer]
  refine ⟨?_, ?_, ?_, ?_, ?_⟩
  · cases whole <;> simp
  · cases whole
    · simp [Transfers]
    · simp [hempty, TcpEvent.toApp, segment, hseq]
  · intro _
    simp only [Completes, hwritten, hstill]
    exact ⟨rfl, fun _ => rfl⟩
  · refine Law.snoc_iff.mpr ⟨hs.continues, fun _ => hseq, ?_⟩
    simp [segment]
  · simp only [hwritten, hstill]
    exact ⟨le_rfl, fun _ => List.prefix_rfl⟩

/-- Data of the server, in a segment that may be cut. -/
theorem Downstream.download (hs : s.Downstream) {data passed : List UInt8} {whole : Bool} (hstate : s.Transfers)
    (hlength : passed.length = data.length) (hpassed : s.key.dest ≠ 53 → passed = data) :
    Downstream { s with
      received := s.received + BitVec.ofNat 64 data.length
      local_seq := if whole then s.local_seq + BitVec.ofNat 32 data.length else s.local_seq
      unconfirmed := if whole then s.unconfirmed + 1 else s.unconfirmed
      state := if whole then s.state else .CLOSING
      log := s.log ++ [.recv data, .tun (s.segment passed false true false false) whole] } := by
  have hseq := hs.opened (.inr hstate)
  obtain ⟨hbefore, hsame⟩ := hs.complete (.inr (.inr hstate))
  rw [List.append_nil] at hbefore hsame
  have hlisten : s.state ≠ .LISTEN := by rcases hstate with hstate | hstate <;> simp [hstate]
  have hreceived : receivedBytes (s.log ++ [.recv data, .tun (s.segment passed false true false false) whole]) =
      receivedBytes s.log ++ data := by simp [TcpEvent.fromServer]
  have hwritten : writtenBytes (s.log ++ [.recv data, .tun (s.segment passed false true false false) whole]) =
      writtenBytes s.log ++ if whole then passed else [] := by simp [TcpEvent.toApp, segment]
  have hcompletes : Completes s.key.dest (s.log ++ [.recv data]) passed := by
    simp only [Completes, writtenBytes_append, receivedBytes_append, List.flatMap_cons, List.flatMap_nil,
      TcpEvent.toApp, TcpEvent.fromServer, List.append_nil, List.length_append, hbefore, hlength, true_and]
    intro hdest
    rw [hsame hdest, hpassed hdest]
  refine ⟨?_, ?_, ?_, ?_, ?_⟩
  · cases whole
    · simp
    · exact fun hother => absurd hother hlisten
  · cases whole
    · simp [Transfers]
    · intro _
      dsimp only
      rw [hwritten, if_pos rfl, if_pos rfl, hseq, List.length_append, hlength, ← number_add_nat, Nat.cast_add]
  · cases whole
    · simp [Transfers]
    · intro _
      simp only [Completes, hwritten, hreceived, if_true, List.append_nil, List.length_append, hbefore, hlength,
        true_and]
      intro hdest
      rw [hsame hdest, hpassed hdest]
  · have hlaw : Law (Continues s.local_start s.key.dest)
        ((s.log ++ [.recv data]) ++ [.tun (s.segment passed false true false false) whole]) := by
      refine Law.snoc_iff.mpr ⟨Law.snoc_iff.mpr ⟨hs.continues, trivial⟩, by simp [segment], fun _ => ⟨?_, hcompletes⟩⟩
      simpa [TcpEvent.toApp, segment] using hseq
    simpa using hlaw
  · dsimp only
    rw [hwritten, hreceived]
    cases whole
    · simp only [Bool.false_eq_true, if_false, List.append_nil, List.length_append]
      refine ⟨by omega, fun hdest => ?_⟩
      rw [hsame hdest]
      exact List.prefix_append _ _
    · simp only [if_true, List.length_append, hbefore, hlength, le_refl, true_and]
      intro hdest
      exact ⟨[], by rw [List.append_nil, hsame hdest, hpassed hdest]⟩

/-- The end of the stream of the server. -/
theorem Downstream.serverFin (hs : s.Downstream) {whole : Bool} (hstate : s.Transfers) :
    Downstream { s with
      local_seq := if whole then s.local_seq + 1 else s.local_seq
      state := if whole then if s.state = .ESTABLISHED then .FIN_WAIT1 else .LAST_ACK else .CLOSING
      socket := false
      log := s.log ++ [.tun (s.segment [] false true true false) whole, .close] } := by
  have hseq := hs.opened (.inr hstate)
  have hcomplete := hs.complete (.inr (.inr hstate))
  have hwritten : writtenBytes (s.log ++ [.tun (s.segment [] false true true false) whole, .close]) =
    writtenBytes s.log := by
    simp [TcpEvent.toApp, segment]
  have hreceived : receivedBytes (s.log ++ [.tun (s.segment [] false true true false) whole, .close]) =
    receivedBytes s.log := by
    simp [TcpEvent.fromServer]
  have hnever : ∀ state, state = (if whole then if s.state = .ESTABLISHED then TcpState.FIN_WAIT1 else .LAST_ACK
      else .CLOSING) → state ≠ .LISTEN ∧ state ≠ .SYN_RECV ∧ state ≠ .ESTABLISHED ∧ state ≠ .CLOSE_WAIT := by
    rintro _ rfl
    cases whole <;> rcases hstate with hstate | hstate <;> simp [hstate]
  obtain ⟨hlisten, hsynRecv, hestablished, hwait⟩ := hnever _ rfl
  refine ⟨fun hother => absurd hother hlisten, ?_, ?_, ?_, ?_⟩
  · rintro (hother | hother | hother)
    · exact absurd hother hsynRecv
    · exact absurd hother hestablished
    · exact absurd hother hwait
  · rintro (hother | hother | hother | hother)
    · exact absurd hother hlisten
    · exact absurd hother hsynRecv
    · exact absurd hother hestablished
    · exact absurd hother hwait
  · have hlaw : Law (Continues s.local_start s.key.dest)
        ((s.log ++ [.tun (s.segment [] false true true false) whole]) ++ [.close]) :=
      Law.snoc_iff.mpr ⟨Law.snoc_iff.mpr ⟨hs.continues, by simp [segment], fun _ => ⟨hseq, hcomplete⟩⟩, trivial⟩
    simpa using hlaw
  · dsimp only
    rw [hwritten, hreceived]
    exact hs.begins

theorem Downstream.effect (hs : s.Downstream) (heffect : TcpEffect P s next) : next.Downstream := by
  have hbare : ∀ t : TcpSession, ∀ ack rst whole, ∀ event ∈ [TcpEvent.tun (t.segment [] false ack false rst) whole],
      event.Bare := by
    intro t ack rst whole event hevent
    rw [List.mem_singleton] at hevent
    subst hevent
    exact ⟨rfl, rfl, rfl⟩
  cases heffect with
  | quiet | window | queue | acked | free => exact hs.keep rfl rfl rfl [] (by simp) (by simp) id id
  | send first rest count =>
    exact hs.keep rfl rfl rfl [.send ((first.data.drop first.sent).take count)] rfl (by simp [TcpEvent.Bare]) id id
  | plain => exact hs.keep rfl rfl rfl _ rfl (hbare _ _ _ _) id id
  | keepAlive => exact hs.keep rfl rfl rfl _ rfl (hbare _ _ _ _) id id
  | refuse => exact hs.keep rfl rfl rfl _ rfl (hbare _ _ _ _) (by simp) (by simp [Transfers])
  | closing => exact hs.keep rfl rfl rfl [] (by simp) (by simp) (by simp) (by simp [Transfers])
  | synAck whole hstate => exact hs.synAck whole hstate
  | confirmFin whole hstate =>
    refine hs.keep rfl rfl rfl _ rfl (hbare _ _ _ _) ?_ fun _ => .inr (.inr hstate)
    cases whole <;> simp
  | fin whole p hp hfin hstate =>
    rcases hstate with ⟨hstate, -⟩ | ⟨hstate, -⟩
    · refine hs.keep rfl rfl rfl _ rfl (hbare _ _ _ _) ?_ fun _ => .inr (.inl hstate)
      cases whole <;> simp [hstate]
    · refine hs.keep rfl rfl rfl _ rfl (hbare _ _ _ _) ?_ ?_
      · cases whole <;> simp [hstate]
      · cases whole <;> simp [hstate, Transfers]
  | finQueued p hp hfin hstate => exact hs.keep rfl rfl rfl [] (by simp) (by simp) (by simp) fun _ => .inr (.inl hstate)
  | established hstate => exact hs.keep rfl rfl rfl [] (by simp) (by simp) (by simp) fun _ => .inl hstate
  | download data passed whole hstate hsocket hlength hpassed => exact hs.download hstate hlength hpassed
  | serverFin whole hstate => exact hs.serverFin hstate
  | close => exact hs.keep rfl rfl rfl [.close] rfl (by simp [TcpEvent.Bare]) id id
  | closed => exact hs.keep rfl rfl rfl [] (by simp) (by simp) (by simp) (by simp [Transfers])
  | account => exact hs.keep rfl rfl rfl [.account_usage s.sent s.received] rfl (by simp [TcpEvent.Bare]) id id
  | socks5 data => exact hs.keep rfl rfl rfl [.socks5 data] rfl (by simp [TcpEvent.Bare]) id id

end downstream

section run

variable {config : NativeConfig} {key : SessionKey} {p : TcpPacket} {options : TcpOptions} {now : Int}
  {rand : BitVec 32}
  {buffer : SendBuffer} {actions : List Action} {final : TcpSession}

theorem downstream_new : (new key p options now rand buffer).Downstream where
  waits _ := ⟨rfl, rfl⟩
  opened hstate := by simp [new, Transfers] at hstate
  complete _ := ⟨rfl, fun _ => rfl⟩
  continues := Law.nil _
  begins := ⟨le_rfl, fun _ => List.prefix_rfl⟩

/-- In every run, each segment with data or a FIN has the number of the byte behind those
written before it, and completes what was received: nothing is left out, repeated or
reordered, and the FIN comes behind all of it. -/
theorem written_continues_of_run (hrun : run (step config) (new key p options now rand buffer) actions = .ok final) :
    (∀ before segment whole after, final.log = before ++ .tun segment whole :: after →
      segment.data ≠ [] ∨ segment.fin = true →
        segment.seq = number (rand + 1) (writtenBytes before).length ∧ Completes key.dest before segment.data) ∧
    (key.dest ≠ 53 → writtenBytes final.log <+: receivedBytes final.log) := by
  obtain ⟨-, ⟨hstart, hkey⟩, hfinal⟩ := run_any_effects
    (I := fun s => (s.local_start = rand ∧ s.key = key) ∧ s.Downstream)
    (fun s next _ hs heffect => by
      obtain ⟨⟨hstart, hkey⟩, hs⟩ := hs
      obtain ⟨-, hnextStart, hnextKey⟩ := effect_start heffect
      exact ⟨⟨hnextStart.trans hstart, hnextKey.trans hkey⟩, hs.effect heffect⟩)
    (consistent_new key p options now rand buffer) ⟨⟨rfl, rfl⟩, downstream_new⟩ hrun
  refine ⟨fun before segment whole after hlog hsegment => ?_, fun hdest => ?_⟩
  · have hlaw := (hfinal.continues before _ after hlog).2 hsegment
    rwa [hstart, hkey] at hlaw
  · exact hfinal.begins.2 (by rwa [hkey])

/-- The server sends something. -/
def readable (recv : RecvResult) (whole : Bool) : SocketEvent :=
  { now := 1, error := false, input := true, output := false, before := room, after := room, sends := [], recv,
    socksSent := true, tun := fun _ => whole }

/-- Two replies, and the end of the stream of the server. -/
def repliedActions : List Action := [
  .socket (writable []),
  .packet (fun _ => true) 2 handshakeAck,
  .socket (readable (.bytes [65, 66]) true),
  .socket (readable (.bytes [67]) true),
  .socket (readable (.bytes []) true)]

theorem replied_continues : ∃ final, run (step plainConfig) swappedSession repliedActions = .ok final ∧
    (∀ before segment whole after, final.log = before ++ .tun segment whole :: after →
      segment.data ≠ [] ∨ segment.fin = true →
        segment.seq = number (500 + 1) (writtenBytes before).length ∧ Completes 80 before segment.data) ∧
    ((80 : BitVec 16) ≠ 53 → writtenBytes final.log <+: receivedBytes final.log) := by
  obtain ⟨final, hrun⟩ : ∃ final, run (step plainConfig) swappedSession repliedActions = .ok final := ⟨_, rfl⟩
  exact ⟨final, hrun, written_continues_of_run hrun⟩

end run

end TcpSession

end inspector.netguard.jni
