import Inspector.NetguardJni.TcpUpstream

open machine serial

namespace inspector.netguard.jni

/-- The data of the packets lies within `2 ^ 30` of a number. -/
def Near (seq : BitVec 32) : Promise := fun _ _ p =>
  p.data ≠ [] → ∃ offset : Int, p.seq = number seq offset ∧ -2 ^ 30 < offset ∧ offset < 2 ^ 30

namespace TcpSession

variable {config : NativeConfig} {seq : BitVec 32} {behind : Int} {s next final : TcpSession}
  {actions before : List Action}

/-- The queue begins before `seq`, which the stream is at or in front of. -/
structure Stalled (seq : BitVec 32) (behind : Int) (sent : List UInt8) (s : TcpSession) : Prop where
  remote_seq : s.remote_seq = seq ∧ s.state = .LISTEN ∨
    s.state ≠ .LISTEN ∧ (s.remote_seq = seq ∨ s.remote_seq = seq + 1)
  head : ∃ first rest, s.forward = first :: rest ∧ first.seq = number seq (-behind)
  waits : s.state ≠ .FIN_WAIT1
  sent : sentBytes s.log = sent

section stalled

variable {sent : List UInt8}

theorem Stalled.forward_ne (hs : s.Stalled seq behind sent) : s.forward ≠ [] := by
  obtain ⟨first, rest, hforward, -⟩ := hs.head
  simp [hforward]

theorem Stalled.at (hs : s.Stalled seq behind sent) : ∃ k : Int, s.remote_seq = number seq k ∧ (k = 0 ∨ k = 1) := by
  have hone : seq + 1 = number seq 1 := (number_add_one seq 0).symm ▸ by simp
  rcases hs.remote_seq with ⟨hseq, -⟩ | ⟨-, hseq | hseq⟩
  · exact ⟨0, by simpa using hseq, .inl rfl⟩
  · exact ⟨0, by simpa using hseq, .inl rfl⟩
  · exact ⟨1, hseq.trans hone, .inr rfl⟩

/-- What comes behind the first segment does not take its place. -/
theorem Stalled.queue (hs : s.Stalled seq behind sent) (hpositive : 0 < behind) (hclose : behind ≤ 2 ^ 16)
    {p : TcpPacket}
    (hp : Near seq s.remote_start s.log p) (hdata : p.data ≠ []) :
    { s with forward := queue_tcp s.remote_seq p.seq p.psh p.data s.forward }.Stalled seq behind sent := by
  obtain ⟨first, rest, hforward, hfirst⟩ := hs.head
  obtain ⟨k, hremote, hk⟩ := hs.at
  obtain ⟨offset, hseq, hlow, hhigh⟩ := hp hdata
  refine ⟨hs.remote_seq, ?_, hs.waits, hs.sent⟩
  dsimp only
  rw [hforward, queue_tcp]
  split
  · exact ⟨first, rest, rfl, hfirst⟩
  · rename_i hnew
    rw [hseq, hremote, compare_number_neg_iff (by omega) (by omega)] at hnew
    have hbefore : compare_u32 first.seq p.seq < 0 := by
      rw [hfirst, hseq]
      exact (compare_number_neg_iff (by omega) (by omega)).mpr (by omega)
    rw [place, if_pos hbefore]
    exact ⟨first, _, rfl, hfirst⟩

theorem Stalled.effect (hs : s.Stalled seq behind sent) (hpositive : 0 < behind) (hclose : behind ≤ 2 ^ 16)
    (heffect : TcpEffect (Near seq) s next) : next.Stalled seq behind sent := by
  have hne := hs.forward_ne
  have hlogged : ∀ event : TcpEvent, event.toServer = [] → sentBytes (s.log ++ [event]) = sent := by
    intro event hevent
    rw [sentBytes_append, hs.sent]
    simp [hevent]
  have hstarted : s.state = .LISTEN → s.remote_seq + 1 = seq + 1 := by
    intro hlisten
    rcases hs.remote_seq with ⟨hseq, -⟩ | ⟨hother, -⟩
    · rw [hseq]
    · exact absurd hlisten hother
  have hgone : ∀ state : TcpState, state ≠ .LISTEN → s.state ≠ .LISTEN →
      s.remote_seq = seq ∧ state = .LISTEN ∨ state ≠ .LISTEN ∧ (s.remote_seq = seq ∨ s.remote_seq = seq + 1) := by
    intro state hstate hlisten
    rcases hs.remote_seq with ⟨-, hother⟩ | ⟨-, hseq⟩
    · exact absurd hother hlisten
    · exact .inr ⟨hstate, hseq⟩
  cases heffect with
  | quiet | window | acked | free => exact ⟨hs.remote_seq, hs.head, hs.waits, hs.sent⟩
  | queue p hp hdata => exact hs.queue hpositive hclose hp hdata
  | send first rest count hforward hseq =>
    obtain ⟨other, others, hother, hfirst⟩ := hs.head
    obtain ⟨rfl, rfl⟩ := List.cons.inj (hforward.symm.trans hother)
    obtain ⟨k, hremote, hk⟩ := hs.at
    have heq : -behind = k := (number_inj (by omega) (by omega)).mp (hfirst.symm.trans (hseq.trans hremote))
    omega
  | plain => exact ⟨hs.remote_seq, hs.head, hs.waits, hlogged _ rfl⟩
  | keepAlive => exact ⟨hs.remote_seq, hs.head, hs.waits, hlogged _ rfl⟩
  | refuse whole hstate => exact ⟨.inr ⟨by simp, .inr (hstarted hstate)⟩, hs.head, by simp, hlogged _ rfl⟩
  | closing hstate =>
    refine ⟨?_, hs.head, by simp, hs.sent⟩
    rcases hs.remote_seq with ⟨hseq, -⟩ | ⟨-, hseq⟩
    · exact .inr ⟨by simp, .inl hseq⟩
    · exact .inr ⟨by simp, hseq⟩
  | synAck whole hstate =>
    refine ⟨.inr ⟨?_, .inr (hstarted hstate)⟩, hs.head, ?_, hlogged _ rfl⟩
    · cases whole <;> simp
    · cases whole <;> simp
  | confirmFin whole hstate hforward => exact absurd hforward hne
  | fin whole p hp hfin hstate =>
    rcases hstate with ⟨-, hforward⟩ | ⟨hstate, -⟩
    · exact absurd hforward hne
    · exact absurd hstate hs.waits
  | finQueued p hp hfin hstate => exact ⟨hgone _ (by simp) (by simp [hstate]), hs.head, by simp, hs.sent⟩
  | established hstate => exact ⟨hgone _ (by simp) (by simp [hstate]), hs.head, by simp, hs.sent⟩
  | download data passed whole hstate =>
    have hlisten : s.state ≠ .LISTEN := by rcases hstate with hstate | hstate <;> simp [hstate]
    refine ⟨hgone _ ?_ hlisten, hs.head, ?_, ?_⟩
    · cases whole
      · simp
      · exact hlisten
    · cases whole
      · simp
      · exact hs.waits
    · simp [TcpEvent.toServer, hs.sent]
  | serverFin whole hstate hsocket hforward => exact absurd hforward hne
  | close hstate => exact ⟨hs.remote_seq, hs.head, hs.waits, hlogged _ rfl⟩
  | closed hstate => exact ⟨hgone _ (by simp) (by simp [hstate]), hs.head, by simp, hs.sent⟩
  | account => exact ⟨hs.remote_seq, hs.head, hs.waits, hlogged _ rfl⟩
  | socks5 => exact ⟨hs.remote_seq, hs.head, hs.waits, hlogged _ rfl⟩

end stalled

/-- Only a session with nothing left to hand on waits for the FIN of its app. -/
theorem forward_eq_nil_of_effect {P : Promise} (hs : s.Consistent) (hempty : s.state = .FIN_WAIT1 → s.forward = [])
    (heffect : TcpEffect P s next) : next.state = .FIN_WAIT1 → next.forward = [] := by
  cases heffect with
  | quiet | window | plain | keepAlive | acked | close | account | free | socks5 => exact hempty
  | queue p hp hdata hsocket hstate =>
    intro hwait
    rcases hstate with hstate | hstate | hstate <;> simp [hstate] at hwait
  | send first rest count hforward hseq hcount hsocket =>
    intro hwait
    have hclosed := hs.finished (.inl hwait)
    rw [hsocket] at hclosed
    cases hclosed
  | refuse | closing | finQueued | established | closed => simp
  | synAck whole | confirmFin whole => cases whole <;> simp
  | fin whole p hp hfin hstate =>
    cases whole
    · simp
    · rcases hstate with ⟨hstate, -⟩ | ⟨hstate, -⟩ <;> simp [hstate]
  | download data passed whole hstate =>
    cases whole
    · simp
    · exact hempty
  | serverFin whole hstate hsocket hforward => exact fun _ => hforward

variable {key : SessionKey} {p : TcpPacket} {options : TcpOptions} {now : Int} {rand : BitVec 32} {buffer : SendBuffer}

/-- Once the queue of a session begins before the byte that the stream goes on with, nothing
is handed on any more. A SYN that carries data leads there, and so do segments that overlap. -/
theorem sends_nothing_of_stalled {first : Segment} {rest : List Segment}
    (hbefore : run (step config) (new key p options now rand buffer) before = .ok s)
    (hforward : s.forward = first :: rest) (hseq : first.seq = number s.remote_seq (-behind)) (hpositive : 0 < behind)
    (hclose : behind ≤ 2 ^ 16) (halong : Along (step config) (Keeps (Near s.remote_seq)) s actions)
    (hrun : run (step config) s actions = .ok final) : sentBytes final.log = sentBytes s.log ∧ final.forward ≠ [] := by
  obtain ⟨hconsistent, hempty⟩ := run_any_effects (I := fun s => s.state = .FIN_WAIT1 → s.forward = [])
    (fun s next hs hinit heffect => forward_eq_nil_of_effect hs hinit heffect)
    (consistent_new key p options now rand buffer) (by simp [new]) hbefore
  have hstalled : s.Stalled s.remote_seq behind (sentBytes s.log) := by
    refine ⟨?_, ⟨first, rest, hforward, hseq⟩, ?_, rfl⟩
    · by_cases hlisten : s.state = .LISTEN
      · exact .inl ⟨rfl, hlisten⟩
      · exact .inr ⟨hlisten, .inl rfl⟩
    · intro hwait
      rw [hempty hwait] at hforward
      cases hforward
  obtain ⟨-, hfinal⟩ := run_effects (I := Stalled s.remote_seq behind (sentBytes s.log))
    (fun s next _ hs heffect => hs.effect hpositive hclose heffect) hconsistent hstalled halong hrun
  exact ⟨hfinal.sent, hfinal.forward_ne⟩

/-- A SYN that carries a byte, and the byte behind it. -/
def synDataPacket : TcpPacket := { ackPacket 100 0 [65] (Nat.lt_of_sub_eq_succ rfl) with syn := true, ack := false }

def synDataSession : TcpSession :=
  new { addresses := .ip4 1 2, source := 4000, dest := 80 } synDataPacket { mss := 1460, ws := 0 } 0 500 room

def behindSynData : List Action :=
  [.packet (fun _ => true) 2 (ackPacket 101 501 [66] (Nat.lt_of_sub_eq_succ rfl)),
    .socket (writable [.sent 1, .sent 1])]

theorem synData_stalls : ∃ s final, run (step plainConfig) synDataSession [.socket (writable [])] = .ok s ∧
    run (step plainConfig) s behindSynData = .ok final ∧ sentBytes final.log = sentBytes s.log ∧
      final.forward ≠ [] := by
  obtain ⟨s, hs, hseq, hforward⟩ : ∃ s, run (step plainConfig) synDataSession [.socket (writable [])] = .ok s ∧
      s.remote_seq = 101 ∧ s.forward = [{ seq := 100, sent := 0, psh := true, data := [65] }] := ⟨_, rfl, rfl, rfl⟩
  obtain ⟨final, hrun⟩ : ∃ final, run (step plainConfig) s behindSynData = .ok final := by
    cases hs
    exact ⟨_, rfl⟩
  have halong : Along (step plainConfig) (Keeps (Near s.remote_seq)) s behindSynData := by
    rw [hseq]
    refine ⟨?_, fun next _ => ⟨by simp [Keeps], fun _ _ => trivial⟩⟩
    intro tun now p hp
    cases hp
    exact fun _ => ⟨0, rfl, by decide, by decide⟩
  exact ⟨s, final, hs, hrun,
    sends_nothing_of_stalled hs hforward (by rw [hseq]; rfl) Int.one_pos (by decide) halong hrun⟩

end TcpSession

end inspector.netguard.jni
