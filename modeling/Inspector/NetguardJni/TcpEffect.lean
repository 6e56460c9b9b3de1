import Inspector.Base.Machine
import Inspector.NetguardJni.TcpSession

open Relation

namespace inspector.netguard.jni

namespace TcpSession

def logged (s : TcpSession) (event : TcpEvent) : TcpSession := { s with log := s.log ++ [event] }

/-- Data of the server is passed on only in these states. -/
def Transfers (s : TcpSession) : Prop := s.state = .ESTABLISHED ∨ s.state = .CLOSE_WAIT

instance (s : TcpSession) : Decidable s.Transfers := inferInstanceAs (Decidable (_ ∨ _))

/-- The last thing done was to send data to the server. -/
def HasJustSent (log : List TcpEvent) : Prop := ∃ before data, log = before ++ [.send data]

end TcpSession

open TcpSession

/-- What is promised of a packet, by the number of the SYN and by what the session has done. -/
abbrev Promise := BitVec 32 → List TcpEvent → TcpPacket → Prop

/-- The single effects of a session whose packets keep the promise. Every call is
a sequence of them. -/
inductive TcpEffect (P : Promise) : TcpSession → TcpSession → Prop where
  | quiet (s : TcpSession) (time : Int) (recv_window : BitVec 32) (last_keep_alive : Int) (socks5 : Socks5)
      (ev : EpollEvents) (hsocks5 : s.state = .LISTEN → socks5 ≠ .CONNECTED) :
      TcpEffect P s { s with time, recv_window, last_keep_alive, socks5, ev }
  | window (s : TcpSession) (p : TcpPacket) (hp : P s.remote_start s.log p) :
      TcpEffect P s { s with send_window := p.window.setWidth 32 <<< s.send_scale.toNat, unconfirmed := 0 }
  | queue (s : TcpSession) (p : TcpPacket) (hp : P s.remote_start s.log p) (hdata : p.data ≠ [])
    (hsocket : s.socket = true)
      (hstate : s.state = .LISTEN ∨ s.state = .SYN_RECV ∨ s.state = .ESTABLISHED) :
      TcpEffect P s { s with forward := queue_tcp s.remote_seq p.seq p.psh p.data s.forward }
  | send (s : TcpSession) (first : Segment) (rest : List Segment) (count : Nat) (hforward : s.forward = first :: rest)
      (hseq : first.seq = s.remote_seq) (hcount : first.sent + count ≤ first.data.length) (hsocket : s.socket = true)
      (hstate : s.state ≠ .LISTEN) : TcpEffect P s (s.sendFirst first rest count)
  | plain (s : TcpSession) (ack rst whole : Bool) (hstate : ack = true → s.state ≠ .LISTEN) :
      TcpEffect P s (s.logged (.tun (s.segment [] false ack false rst) whole))
  | keepAlive (s : TcpSession) (whole : Bool) (hstate : s.Transfers) :
      TcpEffect P s
        (s.logged (.tun ({ s with remote_seq := s.remote_seq - 1 }.segment [] false true false false) whole))
  | refuse (s : TcpSession) (whole : Bool) (hstate : s.state = .LISTEN) :
      TcpEffect P s { s with
        remote_seq := s.remote_seq + 1
        state := .CLOSING
        log := s.log ++ [.tun ({ s with remote_seq := s.remote_seq + 1 }.segment [] false true false true) whole] }
  | closing (s : TcpSession) (hstate : s.state ≠ .CLOSE) : TcpEffect P s { s with state := .CLOSING }
  | synAck (s : TcpSession) (whole : Bool) (hstate : s.state = .LISTEN) (hsocket : s.socket = true) :
      TcpEffect P s { s with
        socks5 := .CONNECTED
        remote_seq := s.remote_seq + 1
        local_seq := if whole then s.local_seq + 1 else s.local_seq
        state := if whole then .SYN_RECV else .CLOSING
        log := s.log ++ [.tun ({ s with remote_seq := s.remote_seq + 1 }.segment [] true true false false) whole] }
  | confirmFin (s : TcpSession) (whole : Bool) (hstate : s.state = .CLOSE_WAIT) (hforward : s.forward = [])
      (hsent : HasJustSent s.log) :
      TcpEffect P s { s with
        remote_seq := s.remote_seq + 1
        state := if whole then .CLOSE_WAIT else .CLOSING
        log := s.log ++ [.tun ({ s with remote_seq := s.remote_seq + 1 }.segment [] false true false false) whole] }
  | fin (s : TcpSession) (whole : Bool) (p : TcpPacket) (hp : P s.remote_start s.log p) (hfin : p.fin = true)
      (hstate : s.state = .ESTABLISHED ∧ s.forward = [] ∨ s.state = .FIN_WAIT1 ∧ s.socket = false) :
      TcpEffect P s { s with
        remote_seq := s.remote_seq + 1
        state := if whole then if s.state = .ESTABLISHED then .CLOSE_WAIT else .CLOSE else .CLOSING
        log := s.log ++ [.tun ({ s with remote_seq := s.remote_seq + 1 }.segment [] false true false false) whole] }
  | finQueued (s : TcpSession) (p : TcpPacket) (hp : P s.remote_start s.log p) (hfin : p.fin = true)
    (hstate : s.state = .ESTABLISHED) (hforward : s.forward ≠ []) :
      TcpEffect P s { s with state := .CLOSE_WAIT }
  | acked (s : TcpSession) (p : TcpPacket) (hp : P s.remote_start s.log p)
      (hacked : p.ack_seq = s.local_seq ∨ compare_u32 p.ack_seq s.local_seq < 0 ∧ compare_u32 p.ack_seq s.acked > 0) :
      TcpEffect P s { s with acked := p.ack_seq }
  | established (s : TcpSession) (hstate : s.state = .SYN_RECV) (hacked : s.acked = s.local_seq) :
      TcpEffect P s { s with state := .ESTABLISHED }
  | download (s : TcpSession) (data passed : List UInt8) (whole : Bool) (hstate : s.Transfers)
    (hsocket : s.socket = true)
      (hlength : passed.length = data.length) (hpassed : s.key.dest ≠ 53 → passed = data)
      (hdata : data ≠ []) (hwindow : data.length ≤ s.get_send_window.toNat) (hmss : data.length ≤ s.mss.toNat) :
      TcpEffect P s { s with
        received := s.received + BitVec.ofNat 64 data.length
        local_seq := if whole then s.local_seq + BitVec.ofNat 32 data.length else s.local_seq
        unconfirmed := if whole then s.unconfirmed + 1 else s.unconfirmed
        state := if whole then s.state else .CLOSING
        log := s.log ++ [.recv data, .tun (s.segment passed false true false false) whole] }
  | serverFin (s : TcpSession) (whole : Bool) (hstate : s.Transfers) (hsocket : s.socket = true)
      (hforward : s.forward = []) :
      TcpEffect P s { s with
        local_seq := if whole then s.local_seq + 1 else s.local_seq
        state := if whole then if s.state = .ESTABLISHED then .FIN_WAIT1 else .LAST_ACK else .CLOSING
        socket := false
        log := s.log ++ [.tun (s.segment [] false true true false) whole, .close] }
  | close (s : TcpSession) (hstate : s.state = .CLOSING) (hsocket : s.socket = true) :
      TcpEffect P s { s with socket := false, log := s.log ++ [.close] }
  | closed (s : TcpSession) (hstate : s.state = .CLOSING) (hsocket : s.socket = false) :
      TcpEffect P s { s with state := .CLOSE }
  | account (s : TcpSession) (hstate : s.state = .CLOSE) :
      TcpEffect P s { s with sent := 0, received := 0, log := s.log ++ [.account_usage s.sent s.received] }
  | free (s : TcpSession) (hstate : s.state = .CLOSE) (hsent : s.sent = 0) (hreceived : s.received = 0) :
      TcpEffect P s { s with freed := true }
  | socks5 (s : TcpSession) (data : List UInt8) (hsocket : s.socket = true) : TcpEffect P s (s.logged (.socks5 data))

abbrev TcpEffects (P : Promise) : TcpSession → TcpSession → Prop := ReflTransGen (TcpEffect P)

end inspector.netguard.jni
