import Inspector.NetguardJni.SessionStep
import Inspector.NetguardJni.TcpUpstream

open machine

namespace inspector.netguard.jni

def UdpEvent.sentLength : UdpEvent → Nat
  | .send _ data => data.length
  | _ => 0

def UdpEvent.receivedLength : UdpEvent → Nat
  | .recv data => data.length
  | _ => 0

def UdpEvent.accountedSent : UdpEvent → BitVec 64
  | .account_usage sent _ => sent
  | _ => 0

def UdpEvent.accountedReceived : UdpEvent → BitVec 64
  | .account_usage _ received => received
  | _ => 0

/-- An event that needs the socket. -/
def UdpEvent.Uses : UdpEvent → Prop
  | .send _ _ | .recv _ | .close => True
  | _ => False

namespace UdpSession

/-- The socket is used and closed only as long as it is open, and the usage is told behind that. -/
def InTurn (before : List UdpEvent) (event : UdpEvent) : Prop :=
  (event.Uses → .close ∉ before) ∧ (∀ sent received, event = .account_usage sent received → .close ∈ before)

/-- A datagram is redirected only as the first thing that is done. -/
def RedirectsFirst (before : List UdpEvent) (event : UdpEvent) : Prop :=
  ∀ redirect data, event = .send (some redirect) data → before = []

/-- Each datagram that comes in is written to the app right behind its arrival, and nothing
else is. Only answers of name servers may be changed. -/
inductive Relays (dest : BitVec 16) : List UdpEvent → Prop where
  | nil : Relays dest []
  | other {event : UdpEvent} {log : List UdpEvent} (hrecv : ∀ data, event ≠ .recv data)
      (htun : ∀ passed whole, event ≠ .tun passed whole) (hlog : Relays dest log) : Relays dest (event :: log)
  | relay {data passed : List UInt8} {whole : Bool} {log : List UdpEvent} (hpassed : dest ≠ 53 → passed = data)
      (hlog : Relays dest log) : Relays dest (.recv data :: .tun passed whole :: log)

/-- Records that relay one behind the other relay together. -/
theorem Relays.append {dest : BitVec 16} {first second : List UdpEvent} (hfirst : Relays dest first)
    (hsecond : Relays dest second) : Relays dest (first ++ second) := by
  induction hfirst with
  | nil => exact hsecond
  | other hrecv htun _ ih => exact .other hrecv htun ih
  | relay hpassed _ ih => exact .relay hpassed ih

/-- What a session did, and its counters with what was told of them. The counters of a
blocked session hold anything. -/
structure Orderly (s : UdpSession) : Prop where
  sent : s.state ≠ .BLOCKED →
    (s.log.map UdpEvent.accountedSent).sum + s.sent = BitVec.ofNat 64 (s.log.map UdpEvent.sentLength).sum
  received : s.state ≠ .BLOCKED →
    (s.log.map UdpEvent.accountedReceived).sum + s.received = BitVec.ofNat 64 (s.log.map UdpEvent.receivedLength).sum
  inTurn : Law InTurn s.log
  redirects : Law RedirectsFirst s.log
  relays : Relays s.key.dest s.log
  blocked : s.state = .BLOCKED → s.log = []

/-- A session that was not cleared: it is closed by a check, and freed once all is told. -/
structure Accounted (s : UdpSession) : Prop extends Orderly s where
  closed : s.log.count .close = if s.state = .CLOSED then 1 else 0
  freed : s.freed = true → s.state = .BLOCKED ∨ s.state = .CLOSED ∧ s.sent = 0 ∧ s.received = 0

variable {s next : UdpSession}

/-- A session closes its socket at most once. -/
theorem Accounted.count_close_le (hs : s.Accounted) : s.log.count .close ≤ 1 := by
  rw [hs.closed]
  split <;> decide

/-- A session that is not closed has not closed its socket. -/
theorem Accounted.close_notMem (hs : s.Accounted) (hstate : s.state ≠ .CLOSED) : .close ∉ s.log := by
  have hnone := hs.closed
  rw [if_neg hstate] at hnone
  exact List.count_eq_zero.mp hnone

/-- A session that is active or finishing is neither blocked nor closed. -/
theorem not_blocked_closed (hstate : s.state = .ACTIVE ∨ s.state = .FINISHING) :
    s.state ≠ .BLOCKED ∧ s.state ≠ .CLOSED := by
  rcases hstate with hstate | hstate <;> rw [hstate] <;> simp

/-- A session that is active or finishing is not freed. -/
theorem Accounted.not_freed (hs : s.Accounted) (hstate : s.state = .ACTIVE ∨ s.state = .FINISHING) :
    s.freed ≠ true := by
  obtain ⟨hblocked, hclosed⟩ := not_blocked_closed hstate
  intro hfreed
  rcases hs.freed hfreed with hgone | hgone
  · exact hblocked hgone
  · exact hclosed hgone.1

/-- An event at the end that is no datagram from the socket or to the app. -/
theorem relays_snoc {log : List UdpEvent} {dest : BitVec 16} {event : UdpEvent} (hlog : Relays dest log)
    (hrecv : ∀ data, event ≠ .recv data) (htun : ∀ passed whole, event ≠ .tun passed whole) :
    Relays dest (log ++ [event]) :=
  hlog.append (.other hrecv htun .nil)

/-- An event that is no redirected send keeps the redirects in front. -/
theorem redirects_snoc {log : List UdpEvent} {event : UdpEvent} (hlog : Law RedirectsFirst log)
    (hevent : ∀ redirect data, event ≠ .send (some redirect) data) : Law RedirectsFirst (log ++ [event]) :=
  Law.snoc_iff.mpr ⟨hlog, fun redirect data heq => absurd heq (hevent redirect data)⟩

/-- An event other than the account keeps the account behind the close. -/
theorem inTurn_snoc {log : List UdpEvent} {event : UdpEvent} (hlog : Law InTurn log) (hopen : .close ∉ log)
    (hevent : ∀ sent received, event ≠ .account_usage sent received) : Law InTurn (log ++ [event]) :=
  Law.snoc_iff.mpr ⟨hlog, fun _ => hopen, fun sent received heq => absurd heq (hevent sent received)⟩

/-- Every effect keeps the accounts. -/
theorem Accounted.effect (hs : s.Accounted) (hconsistent : s.Consistent) (heffect : UdpEffect s next) :
    next.Accounted := by
  cases heffect with
  | time =>
    exact ⟨⟨hs.sent, hs.received, hs.inTurn, hs.redirects, hs.relays, hs.blocked⟩, hs.closed, hs.freed⟩
  | finish hsocket =>
    have hstate := hconsistent.mp hsocket
    obtain ⟨hblocked, hclosed⟩ := not_blocked_closed hstate
    refine ⟨⟨fun _ => hs.sent hblocked, fun _ => hs.received hblocked, hs.inTurn, hs.redirects, hs.relays, by simp⟩, ?_,
      fun hfreed => absurd hfreed (hs.not_freed hstate)⟩
    rw [hs.closed, if_neg hclosed, if_neg (by simp)]
  | recv data passed whole hsocket hdata hpassed =>
    have hstate := hconsistent.mp hsocket
    obtain ⟨hblocked, hclosed⟩ := not_blocked_closed hstate
    have hopen := hs.close_notMem hclosed
    have hlog : s.log ++ [.recv data, .tun passed whole] = (s.log ++ [.recv data]) ++ [.tun passed whole] := by simp
    refine ⟨⟨fun _ => ?_, fun _ => ?_, ?_, ?_, ?_, fun hstate => absurd hstate hblocked⟩, ?_,
      fun hfreed => absurd hfreed (hs.not_freed hstate)⟩
    · simpa [UdpEvent.accountedSent, UdpEvent.sentLength] using hs.sent hblocked
    · have hold := hs.received hblocked
      simp only [List.map_append, List.sum_append, List.map_cons, List.map_nil, List.sum_cons, List.sum_nil,
        UdpEvent.accountedReceived, UdpEvent.receivedLength, Nat.add_zero, BitVec.ofNat_add]
      rw [← hold]
      simp [BitVec.add_assoc]
    · rw [hlog]
      exact inTurn_snoc (inTurn_snoc hs.inTurn hopen (by simp)) (by simpa using hopen) (by simp)
    · rw [hlog]
      exact redirects_snoc (redirects_snoc hs.redirects (by simp)) (by simp)
    · exact hs.relays.append (.relay hpassed .nil)
    · simpa using hs.closed
  | send redirect data hstate hredirect =>
    obtain ⟨hblocked, hclosed⟩ := not_blocked_closed (.inl hstate)
    have hopen := hs.close_notMem hclosed
    refine ⟨⟨fun _ => ?_, fun _ => ?_, inTurn_snoc hs.inTurn hopen (by simp), ?_,
      relays_snoc hs.relays (by simp) (by simp), fun hstate => absurd hstate hblocked⟩, ?_,
      fun hfreed => absurd hfreed (hs.not_freed (.inl hstate))⟩
    · have hold := hs.sent hblocked
      simp only [List.map_append, List.sum_append, List.map_cons, List.map_nil, List.sum_cons, List.sum_nil,
        UdpEvent.accountedSent, UdpEvent.sentLength, Nat.add_zero, BitVec.ofNat_add]
      rw [← hold]
      simp [BitVec.add_assoc]
    · simpa [UdpEvent.accountedReceived, UdpEvent.receivedLength] using hs.received hblocked
    · rcases hredirect with rfl | hempty
      · exact redirects_snoc hs.redirects (by simp)
      · exact Law.snoc_iff.mpr ⟨hs.redirects, fun _ _ _ => hempty⟩
    · simpa using hs.closed
  | close hstate =>
    obtain ⟨hblocked, hclosed⟩ := not_blocked_closed (.inr hstate)
    have hopen := hs.close_notMem hclosed
    refine ⟨⟨fun _ => ?_, fun _ => ?_, inTurn_snoc hs.inTurn hopen (by simp), redirects_snoc hs.redirects (by simp),
      relays_snoc hs.relays (by simp) (by simp), by simp⟩, ?_,
      fun hfreed => absurd hfreed (hs.not_freed (.inr hstate))⟩
    · simpa [UdpEvent.accountedSent, UdpEvent.sentLength] using hs.sent hblocked
    · simpa [UdpEvent.accountedReceived, UdpEvent.receivedLength] using hs.received hblocked
    · simp [List.count_eq_zero.mpr hopen]
  | account hstate =>
    have hblocked : s.state ≠ .BLOCKED := by rw [hstate]; simp
    have hgone : .close ∈ s.log := by
      have hone := hs.closed
      rw [if_pos hstate] at hone
      exact List.count_pos_iff.mp (by omega)
    refine ⟨⟨fun _ => ?_, fun _ => ?_, ?_, redirects_snoc hs.redirects (by simp),
      relays_snoc hs.relays (by simp) (by simp), fun hstate => absurd hstate hblocked⟩, ?_,
      fun _ => .inr ⟨hstate, rfl, rfl⟩⟩
    · simpa [UdpEvent.accountedSent, UdpEvent.sentLength] using hs.sent hblocked
    · simpa [UdpEvent.accountedReceived, UdpEvent.receivedLength] using hs.received hblocked
    · exact Law.snoc_iff.mpr ⟨hs.inTurn, fun huses => huses.elim, fun _ _ _ => hgone⟩
    · simpa using hs.closed
  | free hstate =>
    exact ⟨⟨hs.sent, hs.received, hs.inTurn, hs.redirects, hs.relays, hs.blocked⟩, hs.closed, fun _ => hstate⟩

/-- A new session has its accounts in order. -/
theorem accounted_new (key : SessionKey) (now : Int) (redirect : Option Redirect) : (new key now redirect).Accounted :=
  ⟨⟨fun _ => rfl, fun _ => rfl, Law.nil _, Law.nil _, .nil, fun _ => rfl⟩, rfl, by simp [new]⟩

/-- A blocked session has nothing to account for. -/
theorem accounted_blocked (key : SessionKey) (now : Int) (mss : BitVec 16) (sent received : BitVec 64) :
    (blocked key now mss sent received).Accounted :=
  ⟨⟨fun hstate => absurd rfl hstate, fun hstate => absurd rfl hstate, Law.nil _, Law.nil _, .nil, fun _ => rfl⟩, rfl,
    by simp [blocked]⟩

/-- What the effects keep. -/
theorem Accounted.effects (hs : s.Consistent ∧ s.Accounted) (heffects : UdpEffects s next) :
    next.Consistent ∧ next.Accounted :=
  invariant_of_reflTransGen (I := fun s => s.Consistent ∧ s.Accounted)
    (fun _ _ ht heffect => ⟨ht.1.effect heffect, ht.2.effect ht.1 heffect⟩) hs heffects

/-- A session that is cleared has closed its socket, and its counters keep what was not told. -/
theorem Accounted.clear (hs : s.Accounted) (hconsistent : s.Consistent) :
    s.clear.Orderly ∧ s.clear.log.count .close ≤ 1 ∧ s.clear.socket = false := by
  rw [UdpSession.clear]
  split
  · rename_i hsocket
    -- the same events as those of a session that is finished, and then closed by a check
    have hfinish := hs.effect hconsistent (.finish s hsocket)
    have hclose := hfinish.effect (hconsistent.effect (.finish s hsocket)) (.close _ rfl)
    have hblocked : s.state ≠ .BLOCKED := by
      rcases hconsistent.mp hsocket with hstate | hstate <;> rw [hstate] <;> simp
    exact ⟨⟨fun _ => hclose.sent (by simp), fun _ => hclose.received (by simp), hclose.inTurn, hclose.redirects,
      hclose.relays, fun hstate => absurd hstate hblocked⟩, hclose.count_close_le, rfl⟩
  · rename_i hsocket
    obtain ⟨hsent, hreceived, hturn, hredirects, hrelays, hblocked⟩ := hs.toOrderly
    exact ⟨⟨hsent, hreceived, hturn, hredirects, hrelays, hblocked⟩, hs.count_close_le, eq_false_of_ne_true hsocket⟩

end UdpSession

namespace Context

open UdpSession

/-- The UDP sessions of a list are in order. -/
def UdpAccounted : NgSession → Prop
  | .udp s => s.Consistent ∧ s.Accounted
  | _ => True

variable {a : Arguments} {actions : List Action} {final : Context}

theorem udpAccounted_of_run (hrun : run (step a) initial actions = .ok final) :
    (∀ s ∈ final.ng_session, UdpAccounted s) ∧ (∀ s ∈ final.deleted, s.freed = true ∧ UdpAccounted s) ∧
      ∀ s ∈ final.cleared, ∃ t, t.freed = false ∧ UdpAccounted t ∧ s = t.clear := by
  refine sessions_of_run (fun _ _ _ => trivial) ?_ ?_ (fun _ _ _ _ _ _ => trivial) ?_ (fun _ _ _ _ _ => trivial) hrun
  · exact fun key now redirect => ⟨consistent_new key now redirect, accounted_new key now redirect⟩
  · exact fun key now mss sent received =>
      ⟨consistent_blocked key now mss sent received, accounted_blocked key now mss sent received⟩
  · intro s t hs hst
    cases hst with
    | icmp => trivial
    | udp heffects => exact Accounted.effects hs heffects
    | tcp => trivial

/-- In every run of the thread, each UDP session that is listed, was freed or was cleared has
used its socket only while it was open and closed it at most once, has redirected at most its
first datagram, and has written each datagram that came in, and nothing else, to the app. What
it sent and received is what was told as usage and what its counters hold, unless it is
blocked. A session that was freed has told all of it, while one that was cleared has only
closed its socket. -/
theorem udp_accounted_of_run (hrun : run (step a) initial actions = .ok final) {s : UdpSession}
    (hs : .udp s ∈ final.ng_session ∨ .udp s ∈ final.deleted ∨ .udp s ∈ final.cleared) :
    s.log.count .close ≤ 1 ∧ Law InTurn s.log ∧ Law RedirectsFirst s.log ∧ Relays s.key.dest s.log ∧
      (s.state = .BLOCKED → s.log = []) ∧
      (s.state ≠ .BLOCKED →
        (s.log.map UdpEvent.accountedSent).sum + s.sent = BitVec.ofNat 64 (s.log.map UdpEvent.sentLength).sum ∧
        (s.log.map UdpEvent.accountedReceived).sum + s.received =
          BitVec.ofNat 64 (s.log.map UdpEvent.receivedLength).sum) ∧
      (.udp s ∈ final.deleted →
        s.state = .BLOCKED ∨ s.sent = 0 ∧ s.received = 0 ∧ s.log.count .close = 1) ∧
      (.udp s ∈ final.deleted ∨ .udp s ∈ final.cleared → s.socket = false) := by
  obtain ⟨hlist, hdeleted, hcleared⟩ := udpAccounted_of_run hrun
  have hclear : .udp s ∈ final.cleared → s.Orderly ∧ s.log.count .close ≤ 1 ∧ s.socket = false := by
    intro hgone
    obtain ⟨t, -, ht, heq⟩ := hcleared _ hgone
    cases t with
    | udp t =>
      cases heq
      exact ht.2.clear ht.1
    | icmp | tcp => cases heq
  have hfreed : .udp s ∈ final.deleted →
      s.Accounted ∧ s.socket = false ∧ (s.state = .BLOCKED ∨ s.sent = 0 ∧ s.received = 0 ∧ s.log.count .close = 1) := by
    intro hgone
    obtain ⟨hfreed, hconsistent, haccounted⟩ := hdeleted _ hgone
    rcases haccounted.freed hfreed with hblocked | ⟨hclosed, hsent, hreceived⟩
    · exact ⟨haccounted, by simp [← Bool.not_eq_true, hconsistent.eq, hblocked], .inl hblocked⟩
    · refine ⟨haccounted, by simp [← Bool.not_eq_true, hconsistent.eq, hclosed], .inr ⟨hsent, hreceived, ?_⟩⟩
      rw [haccounted.closed, if_pos hclosed]
  have horderly : s.Orderly ∧ s.log.count .close ≤ 1 := by
    rcases hs with hs | hs | hs
    · exact ⟨(hlist _ hs).2.toOrderly, (hlist _ hs).2.count_close_le⟩
    · exact ⟨(hfreed hs).1.toOrderly, (hfreed hs).1.count_close_le⟩
    · exact ⟨(hclear hs).1, (hclear hs).2.1⟩
  obtain ⟨⟨hsent, hreceived, hturn, hredirects, hrelays, hblocked⟩, hclose⟩ := horderly
  refine ⟨hclose, hturn, hredirects, hrelays, hblocked, fun hstate => ⟨hsent hstate, hreceived hstate⟩,
    fun hgone => (hfreed hgone).2.2, ?_⟩
  rintro (hgone | hgone)
  · exact (hfreed hgone).2.1
  · exact (hclear hgone).2.2

/-- A query of an app to a server of its own, and a thread that may forward it. -/
def queryKey : SessionKey := ⟨.ip4 0x0A010A01 0x08080808, 5000, 123⟩

def plainReception : Reception where
  now := 10
  uid := 10000
  verdict := some none
  opens := true
  rand := 0
  buffer := TcpSession.room
  passes := 10
  sendto := .sent
  tun := fun _ => true
  datagrams := fun _ => true
  memory := (0, 0, 0)

def plainArguments : Arguments where
  config := TcpSession.plainConfig
  fwd53 := true
  maxsessions := 409

/-- A pass at some time that reads packets, and then what a socket is ready for. -/
def plainPass (now : Int) (packets : List (Reception × IpPacket)) (after : List (Nat × Ready)) : Pass where
  monitors := fun _ =>
    { ms := now * 1000, buffer := TcpSession.room, modified := true, tun := fun _ => true }
  ms := now * 1000
  clocks := fun _ => { now, later := now, tun := fun _ => true }
  before := []
  packets
  after

/-- A datagram is redirected, sent and answered, another one follows, the session becomes
idle, and is freed. A third datagram makes a session that is cleared. -/
def queryActions : List Action := [
  .pass (plainPass 10
    [({ plainReception with verdict := some (some (.ip4 0x7F000001 8053)) },
        ⟨queryKey.addresses, .udp queryKey.source queryKey.dest [1, 2, 3]⟩),
      (plainReception, ⟨queryKey.addresses, .udp queryKey.source queryKey.dest [6]⟩)]
    [(0, .udp false true [{ now := 11, recv := .bytes [4, 5], tun := fun _ => true }])]),
  .pass (plainPass 400 [] []),
  .pass (plainPass 500 [(plainReception, ⟨queryKey.addresses, .udp queryKey.source queryKey.dest [7]⟩)] []),
  .clear]

def queriedSession : UdpSession :=
  { UdpSession.new queryKey 400 none with
    state := .CLOSED
    socket := false
    freed := true
    log := [.send (some (.ip4 0x7F000001 8053)) [1, 2, 3], .send none [6], .recv [4, 5], .tun [4, 5] true, .close,
      .account_usage 4 2] }

def clearedSession : UdpSession :=
  { UdpSession.new queryKey 10 none with
    sent := 1
    socket := false
    freed := true
    log := [.send none [7], .close] }

theorem query_accounted : ∃ final, run (step plainArguments) initial queryActions = .ok final ∧
    (.udp queriedSession ∈ final.deleted ∧ queriedSession.log.count .close ≤ 1 ∧ Law InTurn queriedSession.log ∧
      Law RedirectsFirst queriedSession.log ∧ Relays queriedSession.key.dest queriedSession.log ∧
      (queriedSession.state = .BLOCKED ∨
        queriedSession.sent = 0 ∧ queriedSession.received = 0 ∧ queriedSession.log.count .close = 1)) ∧
    .udp clearedSession ∈ final.cleared ∧ clearedSession.socket = false ∧
      (clearedSession.log.map UdpEvent.accountedSent).sum + clearedSession.sent =
        BitVec.ofNat 64 (clearedSession.log.map UdpEvent.sentLength).sum := by
  obtain ⟨final, hrun, hgone, hcleared⟩ : ∃ final, run (step plainArguments) initial queryActions = .ok final ∧
      .udp queriedSession ∈ final.deleted ∧ .udp clearedSession ∈ final.cleared :=
    ⟨_, rfl, List.mem_singleton.mpr rfl, List.mem_singleton.mpr rfl⟩
  obtain ⟨hclose, hturn, hredirects, hrelays, -, -, htold, -⟩ := udp_accounted_of_run hrun (.inr (.inl hgone))
  obtain ⟨-, -, -, -, -, hcounters, -, hsocket⟩ := udp_accounted_of_run hrun (.inr (.inr hcleared))
  exact ⟨final, hrun, ⟨hgone, hclose, hturn, hredirects, hrelays, htold hgone⟩, hcleared, hsocket (.inr hcleared),
    (hcounters (by decide)).1⟩

end Context

end inspector.netguard.jni
