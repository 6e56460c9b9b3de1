import Inspector.NetguardJni.TcpQueue
import Inspector.NetguardJni.TcpStep

open machine serial stream

namespace inspector.netguard.jni

def TcpEvent.toServer : TcpEvent → List UInt8
  | .send data => data
  | _ => []

/-- The bytes that were handed on to the server. -/
def sentBytes (log : List TcpEvent) : List UInt8 := log.flatMap TcpEvent.toServer

@[simp] theorem sentBytes_nil : sentBytes [] = [] := rfl

@[simp] theorem sentBytes_append (log events : List TcpEvent) :
    sentBytes (log ++ events) = sentBytes log ++ events.flatMap TcpEvent.toServer := List.flatMap_append ..

/-- The app sends the stream: what a packet carries is found in it at the offset that the
number of the packet says, less than `2 ^ 30` from what was handed on. It closes the
stream only if it `finishes`. -/
def SendsStream (stream : List UInt8) (finishes : Bool) : Promise := fun start log p =>
  (p.data ≠ [] → ∃ offset : Nat, Slice stream offset p.data ∧ p.seq = number (start + 1) offset ∧
    offset < (sentBytes log).length + 2 ^ 30 ∧ (sentBytes log).length < offset + 2 ^ 30) ∧
  (p.fin = true → finishes = true)

/-- The number that a segment acknowledges is that of a byte handed on, or of the FIN. -/
def AcknowledgesSent (start : BitVec 32) (finishes : Bool) (before : List TcpEvent) : TcpEvent → Prop
  | .tun segment _ => segment.ack = true → ∃ position : Int, segment.ack_seq = number (start + 1) position ∧
      -1 ≤ position ∧ position ≤ (sentBytes before).length + finishes.toNat
  | _ => True

namespace TcpSession

/-- A session at a position of the stream of its app, before or behind its FIN. -/
structure Upstream (stream : List UInt8) (finishes : Bool) (position : Int) (fin : Bool) (s : TcpSession) : Prop where
  remote_seq : s.remote_seq = number (s.remote_start + 1) (position + fin.toNat)
  lower : -1 ≤ position
  waits : s.state = .LISTEN → position = -1
  stands : s.state ≠ .LISTEN → s.state ≠ .CLOSING → s.state ≠ .CLOSE → 0 ≤ position
  delivered : sentBytes s.log <+: stream
  length : (sentBytes s.log).length = position.toNat + sentInQueue s.forward
  queue : Queue stream (s.remote_start + 1) position (position - 2 ^ 16) s.forward
  ended : s.state = .FIN_WAIT1 ∨ s.state = .LAST_ACK → s.forward = []
  closes : s.state = .CLOSE_WAIT → finishes = true
  finished : fin = true → finishes = true ∧ s.forward = [] ∧ ¬HasJustSent s.log ∧
    s.state ≠ .LISTEN ∧ s.state ≠ .SYN_RECV ∧ s.state ≠ .ESTABLISHED ∧ s.state ≠ .FIN_WAIT1
  acknowledges : Law (AcknowledgesSent s.remote_start finishes) s.log

section upstream

variable {stream : List UInt8} {finishes fin : Bool} {position : Int} {s next : TcpSession}

/-- Behind an event that is no send, nothing has just been sent. -/
theorem not_hasJustSent_snoc {log : List TcpEvent} {event : TcpEvent} (hevent : ∀ data, event ≠ .send data) :
    ¬HasJustSent (log ++ [event]) := by
  rintro ⟨before, data, heq⟩
  obtain ⟨-, hlast⟩ := List.append_inj' heq rfl
  exact hevent data (by simpa using hlast)

/-- Events that hand nothing on, and whose acknowledgements are of what was handed on before. -/
theorem law_append {start : BitVec 32} {log events : List TcpEvent} (hlaw : Law (AcknowledgesSent start finishes) log)
    (hevents : ∀ event ∈ events, event.toServer = [] ∧
      ∀ before, sentBytes before = sentBytes log → AcknowledgesSent start finishes before event) :
    Law (AcknowledgesSent start finishes) (log ++ events) ∧ sentBytes (log ++ events) = sentBytes log := by
  induction events generalizing log with
  | nil => simpa using hlaw
  | cons event rest ih =>
    obtain ⟨⟨hsilent, hevent⟩, hrest⟩ := List.forall_mem_cons.mp hevents
    have hbytes : sentBytes (log ++ [event]) = sentBytes log := by simp [hsilent]
    have hboth := ih (Law.snoc_iff.mpr ⟨hlaw, hevent log rfl⟩) fun e he => by
      rw [hbytes]
      exact hrest e he
    rwa [hbytes, List.append_assoc] at hboth

/-- The changes of state that leave the position in the stream alone. -/
def GoesOn (finishes : Bool) (s next : TcpSession) : Prop :=
  next.state = s.state ∨ next.state = .CLOSING ∨ next.state = .CLOSE ∨
    s.state = .SYN_RECV ∧ next.state = .ESTABLISHED ∨
    s.state = .ESTABLISHED ∧ next.state = .CLOSE_WAIT ∧ finishes = true ∨
    s.state = .ESTABLISHED ∧ next.state = .FIN_WAIT1 ∧ s.forward = [] ∨
    s.state = .CLOSE_WAIT ∧ next.state = .LAST_ACK ∧ s.forward = []

namespace Upstream

variable (hs : s.Upstream stream finishes position fin)
include hs

theorem fin_le : fin.toNat ≤ finishes.toNat := by
  cases fin with
  | false => exact Nat.zero_le _
  | true =>
    rw [(hs.finished rfl).1]

/-- The position is within what was sent. -/
theorem position_le : position ≤ (sentBytes s.log).length := by
  have hlength := hs.length
  omega

/-- A segment that acknowledges the position of the stream, or one before it. -/
theorem acknowledges_segment {t : TcpSession} {k : Int} (hseq : t.remote_seq = number (s.remote_start + 1) k)
    (hlower : -1 ≤ k) (hupper : k ≤ position + fin.toNat) {before : List TcpEvent}
    (hbefore : sentBytes before = sentBytes s.log)
    (data : List UInt8) (syn ack fin' rst whole : Bool) :
    AcknowledgesSent s.remote_start finishes before (.tun (t.segment data syn ack fin' rst) whole) := by
  intro hack
  have hfin := hs.fin_le
  have hposition := hs.position_le
  refine ⟨k, ?_, hlower, ?_⟩
  · have hack' : ack = true := hack
    simp only [segment, hack', if_true]
    exact hseq
  · rw [hbefore]
    omega

theorem keep (hseq : next.remote_seq = s.remote_seq) (hstart : next.remote_start = s.remote_start)
    (hforward : next.forward = s.forward) (hstate : GoesOn finishes s next) (events : List TcpEvent)
    (hlog : next.log = s.log ++ events) (hevents : ∀ event ∈ events, (∀ data, event ≠ .send data) ∧
      ∀ before, sentBytes before = sentBytes s.log → AcknowledgesSent s.remote_start finishes before event) :
    next.Upstream stream finishes position fin := by
  have hsilent : ∀ event : TcpEvent, (∀ data, event ≠ .send data) → event.toServer = [] := by
    intro event hevent
    cases event with
    | send data => exact absurd rfl (hevent data)
    | tun | recv | socks5 | account_usage | close => rfl
  obtain ⟨hlaw, hbytes⟩ := law_append hs.acknowledges
    fun event hevent => ⟨hsilent event (hevents event hevent).1, (hevents event hevent).2⟩
  rw [← hlog] at hlaw hbytes
  have hjust : HasJustSent next.log → HasJustSent s.log := by
    rcases List.eq_nil_or_concat events with rfl | ⟨before, last, rfl⟩
    · rw [hlog, List.append_nil]
      exact id
    · rw [hlog, List.concat_eq_append, ← List.append_assoc]
      exact fun h => absurd h (not_hasJustSent_snoc (hevents last (by simp)).1)
  exact {
    remote_seq := by rw [hseq, hstart, hs.remote_seq]
    lower := hs.lower
    waits := by
      intro hlisten
      refine hs.waits ?_
      unfold GoesOn at hstate
      simp_all
    stands := by
      intro hlisten hclosing hclose
      unfold GoesOn at hstate
      have hstands := hs.stands
      rcases hstate with heq | heq | heq | heq | heq | heq | heq <;> simp_all
    delivered := by rw [hbytes]; exact hs.delivered
    length := by rw [hbytes, hforward, hs.length]
    queue := by rw [hforward, hstart]; exact hs.queue
    ended := by
      unfold GoesOn at hstate
      have hended := hs.ended
      rw [hforward]
      rcases hstate with heq | heq | heq | heq | heq | heq | heq <;> simp_all
    closes := by
      unfold GoesOn at hstate
      have hcloses := hs.closes
      rcases hstate with heq | heq | heq | heq | heq | heq | heq <;> simp_all
    finished := by
      intro hfin
      obtain ⟨hfinishes, hempty, hsent, hstates⟩ := hs.finished hfin
      refine ⟨hfinishes, hforward.trans hempty, fun h => hsent (hjust h), ?_⟩
      unfold GoesOn at hstate
      rcases hstate with heq | heq | heq | heq | heq | heq | heq <;> simp_all
    acknowledges := by rw [hstart]; exact hlaw }

/-- The SYN is counted. -/
theorem start {whole : Bool} {syn rst : Bool} (hlisten : s.state = .LISTEN) (hseq : next.remote_seq = s.remote_seq + 1)
    (hstart : next.remote_start = s.remote_start) (hforward : next.forward = s.forward)
    (hlog : next.log = s.log ++ [.tun ({ s with remote_seq := s.remote_seq + 1 }.segment [] syn true false rst) whole])
    (hstate : next.state = .SYN_RECV ∨ next.state = .CLOSING) : next.Upstream stream finishes 0 false := by
  have hposition := hs.waits hlisten
  have hopen : fin = false := by
    by_contra hfin
    exact (hs.finished (by simpa using hfin)).2.2.2.1 hlisten
  have hremote : s.remote_seq = number (s.remote_start + 1) (-1) := by simpa [hopen, hposition] using hs.remote_seq
  have hnext : s.remote_seq + 1 = number (s.remote_start + 1) 0 := by
    rw [hremote, ← number_add_one]
    rfl
  have hbytes : sentBytes next.log = sentBytes s.log := by simp [hlog, TcpEvent.toServer]
  have hbehind : Queue stream (s.remote_start + 1) position (0 - 2 ^ 16) s.forward :=
    hs.queue.mono fun n hn => by omega
  have hzero : sentInQueue s.forward = 0 := by
    have hbehind' : Queue stream (s.remote_start + 1) position (-1) s.forward := hs.queue.mono fun n hn => by omega
    exact hbehind'.sent_eq_zero fun n hn => by omega
  constructor
  · rw [hseq, hstart, hnext]
    rfl
  · decide
  · rcases hstate with hstate | hstate <;> simp [hstate]
  · exact fun _ _ _ => le_rfl
  · rw [hbytes]
    exact hs.delivered
  · rw [hbytes, hforward, hs.length, hposition]
    rfl
  · rw [hforward, hstart]
    exact hbehind.advance hzero (by omega)
  · rcases hstate with hstate | hstate <;> simp [hstate]
  · rcases hstate with hstate | hstate <;> simp [hstate]
  · simp
  · rw [hlog, hstart, Law.snoc_iff]
    refine ⟨hs.acknowledges, fun _ => ⟨0, hnext, by decide, ?_⟩⟩
    omega

/-- The FIN is counted. -/
theorem finish {whole : Bool} (hfinishes : finishes = true) (hempty : s.forward = [])
    (hbefore : s.state = .CLOSE_WAIT ∧ HasJustSent s.log ∨ s.state = .ESTABLISHED ∨ s.state = .FIN_WAIT1)
    (hseq : next.remote_seq = s.remote_seq + 1) (hstart : next.remote_start = s.remote_start)
    (hforward : next.forward = s.forward)
    (hlog : next.log = s.log ++
      [.tun ({ s with remote_seq := s.remote_seq + 1 }.segment [] false true false false) whole])
    (hstate : next.state = .CLOSE_WAIT ∨ next.state = .CLOSE ∨ next.state = .CLOSING) :
    next.Upstream stream finishes position true := by
  have hopen : fin = false := by
    by_contra hfin
    obtain ⟨-, -, hsent, -, -, hestablished, hwait⟩ := hs.finished (by simpa using hfin)
    rcases hbefore with ⟨-, hjust⟩ | hbefore | hbefore
    · exact hsent hjust
    · exact hestablished hbefore
    · exact hwait hbefore
  have hremote : s.remote_seq = number (s.remote_start + 1) position := by simpa [hopen] using hs.remote_seq
  have hnext : s.remote_seq + 1 = number (s.remote_start + 1) (position + 1) := by rw [hremote, ← number_add_one]
  have hbytes : sentBytes next.log = sentBytes s.log := by simp [hlog, TcpEvent.toServer]
  have hstands : 0 ≤ position := by
    refine hs.stands ?_ ?_ ?_ <;>
      rcases hbefore with ⟨hbefore, -⟩ | hbefore | hbefore <;> simp [hbefore]
  constructor
  · rw [hseq, hstart, hnext]
    rfl
  · exact hs.lower
  · rcases hstate with hstate | hstate | hstate <;> simp [hstate]
  · exact fun _ _ _ => hstands
  · rw [hbytes]
    exact hs.delivered
  · rw [hbytes, hforward, hs.length]
  · rw [hforward, hstart]
    exact hs.queue
  · rcases hstate with hstate | hstate | hstate <;> simp [hstate]
  · exact fun _ => hfinishes
  · intro _
    refine ⟨hfinishes, hforward.trans hempty, ?_, ?_⟩
    · rw [hlog]
      exact not_hasJustSent_snoc (by simp)
    · rcases hstate with hstate | hstate | hstate <;> simp [hstate]
  · rw [hlog, hstart, Law.snoc_iff]
    refine ⟨hs.acknowledges, fun _ => ⟨position + 1, hnext, by omega, ?_⟩⟩
    have hle := hs.position_le
    rw [hfinishes, Bool.toNat_true]
    omega

/-- Bytes of the first segment are handed on. -/
theorem send {first : Segment} {rest : List Segment} {count : Nat} (hforward : s.forward = first :: rest)
    (hseq : first.seq = s.remote_seq) (hcount : first.sent + count ≤ first.data.length) :
    ∃ position', (s.sendFirst first rest count).Upstream stream finishes position' false := by
  have hopen : fin = false := by
    by_contra hfin
    have hempty := (hs.finished (by simpa using hfin)).2.1
    rw [hforward] at hempty
    cases hempty
  have hremote : s.remote_seq = number (s.remote_start + 1) position := by simpa [hopen] using hs.remote_seq
  have hqueue := hs.queue
  have hlength := hs.length
  rw [hforward] at hqueue hlength
  cases hqueue with
  | cons offset hlow hhigh hnumber hslice hshort hsent hstarted hrest =>
    obtain rfl : (offset : Int) = position := by
      refine (number_inj ?_ ?_).mp (hnumber.symm.trans (hseq.trans hremote))
      all_goals omega
    have hzero : sentInQueue rest = 0 := hrest.sent_eq_zero fun n hn => by omega
    have hbytes : sentBytes (s.sendFirst first rest count).log =
        sentBytes s.log ++ (first.data.drop first.sent).take count := by
      simp [sendFirst, TcpEvent.toServer]
    have htaken : ((first.data.drop first.sent).take count).length = count := by simp; omega
    have hbefore : sentBytes s.log = stream.take (offset + first.sent) := by
      rw [List.prefix_iff_eq_take.mp hs.delivered, hlength, sentInQueue_cons, hzero]
      rfl
    have hdelivered : sentBytes (s.sendFirst first rest count).log = stream.take (offset + first.sent + count) := by
      rw [hbytes, hbefore, ((hslice.drop first.sent).take count).take_append, htaken]
    have hgrown : (sentBytes (s.sendFirst first rest count).log).length = offset + (first.sent + count) := by
      rw [hbytes, List.length_append, htaken, hlength, sentInQueue_cons, hzero]
      omega
    have hlaw : Law (AcknowledgesSent s.remote_start finishes) (s.sendFirst first rest count).log :=
      Law.snoc_iff.mpr ⟨hs.acknowledges, trivial⟩
    have hended : ¬(s.state = .FIN_WAIT1 ∨ s.state = .LAST_ACK) := by
      intro hstate
      rw [hs.ended hstate] at hforward
      cases hforward
    by_cases hcomplete : first.sent + count = first.data.length
    · refine ⟨offset + (first.sent + count), ?_, by omega, ?_, fun _ _ _ => by omega, ?_, ?_, ?_, ?_, hs.closes,
        by simp, hlaw⟩
      · have hnext : first.seq + BitVec.ofNat 32 (first.sent + count) =
            number (s.remote_start + 1) (offset + (first.sent + count : Nat)) := by
          rw [number_add_nat, hnumber]
        change (if first.sent + count = first.data.length then _ else s.remote_seq) = _
        rw [if_pos hcomplete, hnext]
        simp [sendFirst]
      · intro hlisten
        have hwaits := hs.waits hlisten
        omega
      · rw [hdelivered]
        exact List.take_prefix _ _
      · rw [hgrown]
        simp [sendFirst, hcomplete, hzero]
        omega
      · simp only [sendFirst, hcomplete, if_true]
        refine (hrest.mono fun n hn => ?_).advance hzero (by omega)
        omega
      · exact fun hstate => absurd hstate hended
    · refine ⟨offset, ?_, by omega, hs.waits, fun _ _ _ => by omega, ?_, ?_, ?_, ?_, hs.closes, by simp, hlaw⟩
      · simpa [sendFirst, hcomplete] using hremote
      · rw [hdelivered]
        exact List.take_prefix _ _
      · rw [hgrown]
        simp [sendFirst, hcomplete, hzero]
      · simp only [sendFirst, hcomplete, if_false]
        exact .cons offset hlow hhigh hnumber hslice hshort (by dsimp only; omega) (fun _ => rfl) hrest
      · exact fun hstate => absurd hstate hended

/-- A segment that says where the stream is. -/
theorem keep_tun {data : List UInt8} {syn ack fin' rst whole : Bool} :
    ∀ event ∈ [TcpEvent.tun (s.segment data syn ack fin' rst) whole], (∀ data, event ≠ .send data) ∧
      ∀ before, sentBytes before = sentBytes s.log → AcknowledgesSent s.remote_start finishes before event := by
  intro event hevent
  rw [List.mem_singleton] at hevent
  subst hevent
  have hlower := hs.lower
  exact ⟨by simp, fun before hbefore =>
    hs.acknowledges_segment hs.remote_seq (by omega) le_rfl hbefore data syn ack fin' rst whole⟩

/-- Data of the app joins the queue, or it was handed on before. -/
theorem enqueue {p : TcpPacket} (hp : SendsStream stream finishes s.remote_start s.log p) (hdata : p.data ≠ [])
    (hstate : s.state = .LISTEN ∨ s.state = .SYN_RECV ∨ s.state = .ESTABLISHED) :
    { s with forward := queue_tcp s.remote_seq p.seq p.psh p.data s.forward }.Upstream stream finishes position
      fin := by
  have hopen : fin = false := by
    by_contra hfin
    obtain ⟨-, -, -, hlisten, hreceived, hestablished, -⟩ := hs.finished (by simpa using hfin)
    rcases hstate with hstate | hstate | hstate
    · exact hlisten hstate
    · exact hreceived hstate
    · exact hestablished hstate
  have hremote : s.remote_seq = number (s.remote_start + 1) position := by simpa [hopen] using hs.remote_seq
  obtain ⟨offset, hslice, hseq, hhigh, hlow⟩ := hp.1 hdata
  have hlength := hs.length
  have hsent := hs.queue.sent_lt
  have hlower := hs.lower
  have hplaced : Queue stream (s.remote_start + 1) position (position - 2 ^ 16)
        (queue_tcp s.remote_seq p.seq p.psh p.data s.forward) ∧
      sentInQueue (queue_tcp s.remote_seq p.seq p.psh p.data s.forward) = sentInQueue s.forward := by
    rw [queue_tcp]
    split
    · exact ⟨hs.queue, rfl⟩
    · rename_i hnew
      rw [hseq, hremote, compare_number_neg_iff (by omega) (by omega)] at hnew
      rw [hseq]
      exact hs.queue.place le_rfl hslice p.length_lt (by omega) (by omega)
  obtain ⟨hqueue, hsum⟩ := hplaced
  have hended : ¬(s.state = .FIN_WAIT1 ∨ s.state = .LAST_ACK) := by
    rcases hstate with hstate | hstate | hstate <;> simp [hstate]
  exact {
    remote_seq := hs.remote_seq
    lower := hs.lower
    waits := hs.waits
    stands := hs.stands
    delivered := hs.delivered
    length := hs.length.trans (by rw [hsum])
    queue := hqueue
    ended := fun hfinal => absurd hfinal hended
    closes := hs.closes
    finished := by
      rw [hopen]
      simp
    acknowledges := hs.acknowledges }

/-- The positions of a session along its effects. -/
theorem effect (heffect : TcpEffect (SendsStream stream finishes) s next) :
    ∃ position' fin', next.Upstream stream finishes position' fin' := by
  cases heffect with
  | quiet => exact ⟨position, fin, hs.keep rfl rfl rfl (.inl rfl) [] (by simp) (by simp)⟩
  | window => exact ⟨position, fin, hs.keep rfl rfl rfl (.inl rfl) [] (by simp) (by simp)⟩
  | queue p hp hdata hsocket hstate => exact ⟨position, fin, hs.enqueue hp hdata hstate⟩
  | send first rest count hforward hseq hcount =>
    obtain ⟨position', hsent⟩ := hs.send hforward hseq hcount
    exact ⟨position', false, hsent⟩
  | plain ack rst whole hstate => exact ⟨position, fin, hs.keep rfl rfl rfl (.inl rfl) _ rfl hs.keep_tun⟩
  | keepAlive whole hstate =>
    have hstands : 0 ≤ position := by
      refine hs.stands ?_ ?_ ?_ <;>
        rcases hstate with hstate | hstate <;> simp [hstate]
    refine ⟨position, fin, hs.keep rfl rfl rfl (.inl rfl) _ rfl fun event hevent => ?_⟩
    rw [List.mem_singleton] at hevent
    subst hevent
    refine ⟨by simp, fun before hbefore => ?_⟩
    have hback : s.remote_seq - 1 = number (s.remote_start + 1) (position + fin.toNat - 1) := by
      rw [number_sub_one, ← hs.remote_seq]
    exact hs.acknowledges_segment (t := { s with remote_seq := s.remote_seq - 1 }) hback (by omega) (by omega) hbefore
      [] false true false false whole
  | refuse whole hstate => exact ⟨0, false, hs.start hstate rfl rfl rfl rfl (.inr rfl)⟩
  | closing => exact ⟨position, fin, hs.keep rfl rfl rfl (.inr (.inl rfl)) [] (by simp) (by simp)⟩
  | synAck whole hstate =>
    refine ⟨0, false, hs.start hstate rfl rfl rfl rfl ?_⟩
    cases whole
    · exact .inr rfl
    · exact .inl rfl
  | confirmFin whole hstate hempty hjust =>
    refine ⟨position, true, hs.finish (hs.closes hstate) hempty (.inl ⟨hstate, hjust⟩) rfl rfl rfl rfl ?_⟩
    cases whole
    · exact .inr (.inr rfl)
    · exact .inl rfl
  | fin whole p hp hfin hstate =>
    rcases hstate with ⟨hstate, hempty⟩ | ⟨hstate, hsocket⟩
    · refine ⟨position, true, hs.finish (hp.2 hfin) hempty (.inr (.inl hstate)) rfl rfl rfl rfl ?_⟩
      cases whole
      · exact .inr (.inr rfl)
      · exact .inl (by simp [hstate])
    · refine ⟨position, true, hs.finish (hp.2 hfin) (hs.ended (.inl hstate)) (.inr (.inr hstate)) rfl rfl rfl rfl ?_⟩
      cases whole
      · exact .inr (.inr rfl)
      · exact .inr (.inl (by simp [hstate]))
  | finQueued p hp hfin hstate =>
    exact ⟨position, fin, hs.keep rfl rfl rfl (.inr (.inr (.inr (.inr (.inl ⟨hstate, rfl, hp.2 hfin⟩))))) [] (by simp)
      (by simp)⟩
  | acked => exact ⟨position, fin, hs.keep rfl rfl rfl (.inl rfl) [] (by simp) (by simp)⟩
  | established hstate =>
    exact ⟨position, fin, hs.keep rfl rfl rfl (.inr (.inr (.inr (.inl ⟨hstate, rfl⟩)))) [] (by simp) (by simp)⟩
  | download data passed whole hstate =>
    refine ⟨position, fin, hs.keep rfl rfl rfl ?_ [.recv data, .tun (s.segment passed false true false false) whole] rfl
      (List.forall_mem_cons.mpr ⟨⟨by simp, fun _ _ => trivial⟩, hs.keep_tun⟩)⟩
    cases whole
    · exact .inr (.inl rfl)
    · exact .inl rfl
  | serverFin whole hstate hsocket hempty =>
    refine ⟨position, fin, hs.keep rfl rfl rfl ?_ [.tun (s.segment [] false true true false) whole, .close] rfl ?_⟩
    · unfold GoesOn
      cases whole
      · exact .inr (.inl rfl)
      · rcases hstate with hstate | hstate <;> simp [hstate, hempty]
    · intro event hevent
      rcases List.mem_cons.mp hevent with rfl | hevent
      · exact hs.keep_tun _ (List.mem_singleton_self _)
      · rw [List.mem_singleton] at hevent
        subst hevent
        exact ⟨by simp, fun _ _ => trivial⟩
  | close hstate => exact ⟨position, fin, hs.keep rfl rfl rfl (.inl rfl) [.close] rfl (by simp [AcknowledgesSent])⟩
  | closed hstate => exact ⟨position, fin, hs.keep rfl rfl rfl (.inr (.inr (.inl rfl))) [] (by simp) (by simp)⟩
  | account hstate =>
    exact ⟨position, fin, hs.keep rfl rfl rfl (.inl rfl) [.account_usage s.sent s.received] rfl
      (by simp [AcknowledgesSent])⟩
  | free => exact ⟨position, fin, hs.keep rfl rfl rfl (.inl rfl) [] (by simp) (by simp)⟩
  | socks5 data => exact ⟨position, fin, hs.keep rfl rfl rfl (.inl rfl) [.socks5 data] rfl (by simp [AcknowledgesSent])⟩

end Upstream

section run

variable (config : NativeConfig) {key : SessionKey} {p : TcpPacket} {options : TcpOptions} {now : Int}
  {rand : BitVec 32}
  {buffer : SendBuffer} {actions : List Action} {final : TcpSession}

/-- A new session has sent nothing to the server. -/
theorem upstream_new (hdata : p.data = []) :
    (new key p options now rand buffer).Upstream stream finishes (-1) false := by
  have hremote : number (p.seq + 1) (-1) = p.seq := by
    rw [← Int.zero_sub, number_sub_one, number_zero, BitVec.add_sub_cancel]
  constructor
  · simpa [new] using hremote.symm
  · exact le_rfl
  · exact fun _ => rfl
  · exact fun hlisten => absurd rfl hlisten
  · exact List.nil_prefix
  · simp [new, hdata]
  · simpa [new, hdata] using Queue.nil _
  · simp [new]
  · simp [new]
  · simp
  · exact Law.nil _

/-- Along every run, a session that begins with a SYN without data stays at a position of
the stream of its app. -/
theorem upstream_of_run (hdata : p.data = [])
    (halong : Along (step config) (Keeps (SendsStream stream finishes)) (new key p options now rand buffer) actions)
    (hrun : run (step config) (new key p options now rand buffer) actions = .ok final) :
    ∃ position fin, final.remote_start = p.seq ∧ final.Upstream stream finishes position fin := by
  have hinvariant := run_effects
    (I := fun s => ∃ position fin, s.remote_start = p.seq ∧ s.Upstream stream finishes position fin) ?_
    (consistent_new key p options now rand buffer) ⟨-1, false, rfl, upstream_new hdata⟩ halong hrun
  · exact hinvariant.2
  · rintro s next - ⟨position, fin, hstart, hs⟩ heffect
    obtain ⟨position', fin', hnext⟩ := hs.effect heffect
    exact ⟨position', fin', (effect_start heffect).1.trans hstart, hnext⟩

/-- Whatever order the packets of a stream come in, and however often, what is handed on to
the server is a beginning of it. A session with an empty queue waits for the byte behind. -/
theorem sentBytes_isPrefix_of_run (hdata : p.data = [])
    (halong : Along (step config) (Keeps (SendsStream stream finishes)) (new key p options now rand buffer) actions)
    (hrun : run (step config) (new key p options now rand buffer) actions = .ok final) :
    sentBytes final.log <+: stream ∧ (final.state = .ESTABLISHED → final.forward = [] →
      final.remote_seq = number (p.seq + 1) (sentBytes final.log).length) := by
  obtain ⟨position, fin, hstart, hfinal⟩ := upstream_of_run config hdata halong hrun
  refine ⟨hfinal.delivered, fun hstate hforward => ?_⟩
  have hopen : fin = false := by
    by_contra hfin
    exact (hfinal.finished (by simpa using hfin)).2.2.2.2.2.1 hstate
  have hstands := hfinal.stands (by simp [hstate]) (by simp [hstate]) (by simp [hstate])
  have hlength : ((sentBytes final.log).length : Int) = position := by
    rw [hfinal.length, hforward, sentInQueue_nil]
    omega
  rw [hfinal.remote_seq, hstart, hopen, hlength]
  simp

/-- No proxy is set, and no name is blocked. -/
def plainConfig : NativeConfig where
  proxy := false
  username := []
  password := []
  is_domain_blocked := fun _ => false
  rcode := 3
  name := List.replicate 256 0
  name_length := List.length_replicate

/-- An acknowledging packet of the app. -/
def ackPacket (seq ack_seq : BitVec 32) (data : List UInt8) (length_lt : data.length < 2 ^ 16) : TcpPacket :=
  { seq, ack_seq, window := 1000, syn := false, ack := true, psh := true, fin := false, rst := false, urg := false,
    data, length_lt }

def synPacket : TcpPacket := { ackPacket 100 0 [] (Nat.two_pow_pos 16) with syn := true, ack := false }

/-- The last packet of the handshake. -/
def handshakeAck : TcpPacket := ackPacket 101 501 [] (Nat.two_pow_pos 16)

def room : SendBuffer := { sendbuf := 4096, unsent := 0, sendbuf_lt := Nat.lt_of_sub_eq_succ rfl }

/-- The socket is writable, and takes what it is given. -/
def writable (sends : List SendResult) : SocketEvent :=
  { now := 1, error := false, input := false, output := true, before := room, after := room, sends, recv := .again,
    socksSent := true, tun := fun _ => true }

/-- Three bytes come behind the two that follow them. -/
def swappedActions : List Action := [
  .socket (writable []),
  .packet (fun _ => true) 2 handshakeAck,
  .packet (fun _ => true) 3 (ackPacket 104 501 [68, 69] (Nat.lt_of_sub_eq_succ rfl)),
  .packet (fun _ => true) 4 (ackPacket 101 501 [65, 66, 67] (Nat.lt_of_sub_eq_succ rfl)),
  .socket (writable [.sent 3, .sent 2])]

def swappedSession : TcpSession :=
  new { addresses := .ip4 1 2, source := 4000, dest := 80 } synPacket { mss := 1460, ws := 0 } 0 500 room

theorem swapped_keeps : Along (step plainConfig) (Keeps (SendsStream [65, 66, 67, 68,
    69] false)) swappedSession swappedActions := by
  have hquiet : ∀ s e, Keeps (SendsStream [65, 66, 67, 68, 69] false) s (.socket e) := by simp [Keeps]
  refine (along_cons_ok rfl).mpr ⟨hquiet _ _, ?_⟩
  refine (along_cons_ok rfl).mpr ⟨?_, ?_⟩
  · intro tun now p hp
    cases hp
    exact ⟨fun hdata => absurd rfl hdata, by simp [handshakeAck, ackPacket]⟩
  refine (along_cons_ok rfl).mpr ⟨?_, ?_⟩
  · intro tun now p hp
    cases hp
    exact ⟨fun _ => ⟨3, List.prefix_rfl, rfl, by decide, by decide⟩, by simp [ackPacket]⟩
  refine (along_cons_ok rfl).mpr ⟨?_, ?_⟩
  · intro tun now p hp
    cases hp
    exact ⟨fun _ => ⟨0, ⟨[68, 69], rfl⟩, rfl, by decide, by decide⟩, by simp [ackPacket]⟩
  exact (along_cons_ok rfl).mpr ⟨hquiet _ _, trivial⟩

theorem swapped_sent : ∃ final, run (step plainConfig) swappedSession swappedActions = .ok final ∧
    sentBytes final.log <+: [65, 66, 67, 68, 69] ∧ (final.state = .ESTABLISHED → final.forward = [] →
      final.remote_seq = number (100 + 1) (sentBytes final.log).length) :=
  ⟨_, rfl, sentBytes_isPrefix_of_run plainConfig rfl swapped_keeps rfl⟩

/-- A FIN of the app came in when not more than these events had taken place. -/
def FinCame (config : NativeConfig) (start : TcpSession) (actions : List Action) (before : List TcpEvent) : Prop :=
  ∃ earlier tun now q later middle, actions = earlier ++ .packet tun now q :: later ∧ q.fin = true ∧
    run (step config) start earlier = .ok middle ∧ middle.log <+: before

/-- A stream of which no FIN comes in is one that does not finish. -/
theorem Keeps.unfinished {s : TcpSession} {a : Action} (hkeeps : Keeps (SendsStream stream finishes) s a)
    (hopen : ∀ tun now q, a = .packet tun now q → q.fin ≠ true) : Keeps (SendsStream stream false) s a := by
  intro tun now q ha
  exact ⟨(hkeeps tun now q ha).1, fun hfin => absurd hfin (hopen tun now q ha)⟩

/-- A segment is written by some action of the run. What the run has done before that action
is done before the segment. -/
theorem exists_writes_of_run {start : TcpSession} (hstart : start.Consistent) (hempty : start.log = [])
    (hrun : run (step config) start actions = .ok final) {before after : List TcpEvent} {event : TcpEvent}
    (hlog : final.log = before ++ event :: after) :
    ∃ earlier a later middle next, actions = earlier ++ a :: later ∧ run (step config) start earlier = .ok middle ∧
      middle.log <+: before ∧ run (step config) start (earlier ++ [a]) = .ok next ∧
      ∃ after', next.log = before ++ event :: after' := by
  have hinit : start.log <+: before := hempty ▸ List.nil_prefix
  have hbroken : ¬ final.log <+: before := by
    intro hle
    have hlength := hle.length_le
    rw [hlog, List.length_append, List.length_cons] at hlength
    omega
  obtain ⟨earlier, a, later, middle, next, hactions, hearlier, hmiddle, hstep, hnext, hlater⟩ :=
    exists_breaks_of_run (I := fun s => s.log <+: before) hinit hbroken hrun
  have hfirst : run (step config) start (earlier ++ [a]) = .ok next :=
    (run_append hearlier).trans ((run_singleton _ _ _).trans hstep)
  have hle : next.log <+: final.log := (log_isPrefix_of_run (log_isPrefix_of_run hstart hfirst).1 hlater).2
  have hwritten : before ++ [event] <+: final.log := ⟨after, by rw [hlog, List.append_assoc, List.singleton_append]⟩
  refine ⟨earlier, a, later, middle, next, hactions, hearlier, hmiddle, hfirst, ?_⟩
  have hreached : before ++ [event] <+: next.log := by
    rcases List.prefix_or_prefix_of_prefix hle hwritten with hshort | hlong
    · rcases List.prefix_concat_iff.mp hshort with heq | hshorter
      · exact heq ▸ List.prefix_rfl
      · exact absurd hshorter hnext
    · exact hlong
  obtain ⟨after', hafter⟩ := hreached
  exact ⟨after', by rw [← hafter, List.append_assoc, List.singleton_append]⟩

/-- Among the actions up to the one that writes a segment, a FIN is one that came in before it. -/
theorem finCame_of_mem {start middle : TcpSession} (hstart : start.Consistent) {earlier later : List Action}
    {a : Action}
    (hearlier : run (step config) start earlier = .ok middle) {before : List TcpEvent} (hmiddle : middle.log <+: before)
    {tun : Tun} {now : Int} {q : TcpPacket} (hq : .packet tun now q ∈ earlier ++ [a]) (hfin : q.fin = true) :
    FinCame config start (earlier ++ a :: later) before := by
  rcases List.mem_append.mp hq with hq | hq
  · obtain ⟨first, second, rfl⟩ := List.append_of_mem hq
    obtain ⟨t, hfirst, hsecond⟩ := run_append_ok.mp hearlier
    have hlog := (log_isPrefix_of_run (log_isPrefix_of_run hstart hfirst).1 hsecond).2
    exact ⟨first, tun, now, q, second ++ a :: later, t, by simp, hfin, hfirst, hlog.trans hmiddle⟩
  · rw [List.mem_singleton] at hq
    exact ⟨earlier, tun, now, q, later, middle, by rw [hq], hfin, hearlier, hmiddle⟩

/-- No segment acknowledges a byte that was not handed on before it. It acknowledges one number
more only if a FIN of the app has come in by then. What number that FIN has is not checked, so
that it may be acknowledged in the place of a byte which it has overtaken. -/
theorem acknowledges_sent_of_run (hdata : p.data = [])
    (halong : Along (step config) (Keeps (SendsStream stream finishes)) (new key p options now rand buffer) actions)
    (hrun : run (step config) (new key p options now rand buffer) actions = .ok final)
    {before after : List TcpEvent} {segment : TcpSegment} {whole : Bool}
    (hlog : final.log = before ++ .tun segment whole :: after) (hack : segment.ack = true) :
    ∃ position : Int, segment.ack_seq = number (p.seq + 1) position ∧ -1 ≤ position ∧
      (position ≤ (sentBytes before).length ∨ position = (sentBytes before).length + 1 ∧
        FinCame config (new key p options now rand buffer) actions before) := by
  have hstart := consistent_new key p options now rand buffer
  obtain ⟨earlier, a, later, middle, next, rfl, hearlier, hmiddle, hfirst, after', hwritten⟩ :=
    exists_writes_of_run config hstart rfl hrun hlog
  have halong' : Along (step config) (Keeps (SendsStream stream finishes)) (new key p options now rand buffer)
      (earlier ++ [a]) := by
    rw [← List.singleton_append, ← List.append_assoc] at halong
    exact halong.of_append
  by_cases hcame : ∃ tun now q, .packet tun now q ∈ earlier ++ [a] ∧ q.fin = true
  · obtain ⟨tun, time, q, hq, hfin⟩ := hcame
    obtain ⟨position, fin, hsame, hnext⟩ := upstream_of_run config hdata halong' hfirst
    obtain ⟨k, hnumber, hlower, hupper⟩ := hsame ▸ hnext.acknowledges before _ after' hwritten hack
    have hone : finishes.toNat ≤ 1 := Bool.toNat_le finishes
    refine ⟨k, hnumber, hlower, ?_⟩
    by_cases hbyte : k ≤ (sentBytes before).length
    · exact .inl hbyte
    · exact .inr ⟨by omega, finCame_of_mem config hstart hearlier hmiddle hq hfin⟩
  · -- without a FIN, the bound is that of a stream that does not finish
    have hopen := halong'.imp (Q := Keeps (SendsStream stream false)) fun s b hb hkeeps =>
      hkeeps.unfinished fun tun time q hq hfin => hcame ⟨tun, time, q, hq ▸ hb, hfin⟩
    obtain ⟨position, fin, hsame, hnext⟩ := upstream_of_run config hdata hopen hfirst
    obtain ⟨k, hnumber, hlower, hupper⟩ := hsame ▸ hnext.acknowledges before _ after' hwritten hack
    exact ⟨k, hnumber, hlower, .inl (by simpa using hupper)⟩

/-- A FIN comes in before the five bytes in front of it. -/
def overtakingActions : List Action := [
  .socket (writable []),
  .packet (fun _ => true) 2 handshakeAck,
  .packet (fun _ => true) 3 { ackPacket 106 501 [] (Nat.two_pow_pos 16) with fin := true }]

theorem overtaking_keeps :
    Along (step plainConfig) (Keeps (SendsStream [65, 66, 67, 68, 69] true)) swappedSession overtakingActions := by
  refine (along_cons_ok rfl).mpr ⟨by simp [Keeps], ?_⟩
  refine (along_cons_ok rfl).mpr ⟨?_, ?_⟩
  · intro tun now p hp
    cases hp
    exact ⟨fun hdata => absurd rfl hdata, fun _ => rfl⟩
  refine (along_cons_ok rfl).mpr ⟨?_, trivial⟩
  intro tun now p hp
  cases hp
  exact ⟨fun hdata => absurd rfl hdata, fun _ => rfl⟩

/-- Five bytes in two packets are acknowledged when they are handed on. A FIN that overtakes
them is acknowledged with the number of the first of them. -/
theorem swapped_acknowledged :
    (∃ position : Int, (106 : BitVec 32) = number (100 + 1) position ∧ -1 ≤ position ∧
      (position ≤ (5 : Nat) ∨ position = (5 : Nat) + 1 ∧ FinCame plainConfig swappedSession swappedActions
        [.tun ⟨500, 101, 4096, true, true, false, false, []⟩ true, .send [65, 66, 67], .send [68, 69]])) ∧
    FinCame plainConfig swappedSession overtakingActions
      [.tun ⟨500, 101, 4096, true, true, false, false, []⟩ true] := by
  obtain ⟨final, hrun, hlog⟩ : ∃ final, run (step plainConfig) swappedSession swappedActions = .ok final ∧
      final.log = [.tun ⟨500, 101, 4096, true, true, false, false, []⟩ true, .send [65, 66, 67], .send [68, 69]] ++
        .tun ⟨501, 106, 4096, false, true, false, false, []⟩ true :: [] := ⟨_, rfl, rfl⟩
  obtain ⟨final', hrun', hlog'⟩ : ∃ final, run (step plainConfig) swappedSession overtakingActions = .ok final ∧
      final.log = [.tun ⟨500, 101, 4096, true, true, false, false, []⟩ true] ++
        .tun ⟨501, 102, 4096, false, true, false, false, []⟩ true :: [] := ⟨_, rfl, rfl⟩
  refine ⟨acknowledges_sent_of_run plainConfig rfl swapped_keeps hrun hlog rfl, ?_⟩
  obtain ⟨position, hnumber, hlower, hbyte | ⟨-, hcame⟩⟩ :=
    acknowledges_sent_of_run plainConfig rfl overtaking_keeps hrun' hlog' rfl
  · -- nothing was handed on, so the number would be that of the SYN or the one behind it
    have hsmall : position = -1 ∨ position = 0 := by
      simp only [sentBytes, TcpEvent.toServer, List.flatMap_cons, List.flatMap_nil, List.append_nil,
        List.length_nil] at hbyte
      omega
    rcases hsmall with rfl | rfl <;> exact absurd hnumber (by decide)
  · exact hcame

end run

end upstream

end TcpSession

end inspector.netguard.jni
