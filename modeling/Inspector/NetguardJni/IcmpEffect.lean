import Inspector.Base.Machine
import Inspector.NetguardJni.Sessions

open machine Relation

namespace inspector.netguard.jni

/-- The single effects of an ICMP session. Every call is a sequence of them. -/
inductive IcmpEffect : IcmpSession → IcmpSession → Prop where
  | time (s : IcmpSession) (time : Int) : IcmpEffect s { s with time }
  | stop (s : IcmpSession) : IcmpEffect s { s with stop := true }
  | send (s : IcmpSession) (message : List UInt8) (plen : BitVec 16) (nxt : UInt8)
      (hsocket : s.socket = true) :
      IcmpEffect s { s with log := s.log ++ [.send (IcmpSession.request message s.addresses plen nxt)] }
  | reply (s : IcmpSession) (data : List UInt8) (whole : Bool) (hsocket : s.socket = true) (hdata : data ≠ [])
      (hmax : data.length ≤ s.maxmsg) :
      IcmpEffect s { s with log := s.log ++ [.tun (s.reply data) whole] }
  | close (s : IcmpSession) (hsocket : s.socket = true) :
      IcmpEffect s { s with socket := false, freed := true, log := s.log ++ [.close] }

abbrev IcmpEffects : IcmpSession → IcmpSession → Prop := ReflTransGen IcmpEffect

namespace IcmpSession

/-- The socket is closed when the session is freed. -/
def Consistent (s : IcmpSession) : Prop := s.socket = !s.freed

variable {s next : IcmpSession}

theorem Consistent.effect (hs : s.Consistent) (heffect : IcmpEffect s next) : next.Consistent := by
  cases heffect with
  | time | stop | send | reply => exact hs
  | close => rfl

theorem Consistent.effects (hs : s.Consistent) (heffects : IcmpEffects s next) : next.Consistent :=
  invariant_of_reflTransGen (fun _ _ ht heffect => ht.effect heffect) hs heffects

/-- The addresses and the ID stay, and a session that is stopped stays so. -/
theorem effects_start (heffects : IcmpEffects s next) :
    next.addresses = s.addresses ∧ next.id = s.id ∧ (s.stop = true → next.stop = true) := by
  induction heffects with
  | refl => exact ⟨rfl, rfl, fun hstop => hstop⟩
  | tail _ heffect ih =>
    cases heffect with
    | time | send | reply | close => exact ih
    | stop => exact ⟨ih.1, ih.2.1, fun _ => rfl⟩

theorem check_effects (c : Check) (hsocket : s.socket = true) : IcmpEffects s (s.check_icmp_session c) := by
  rw [check_icmp_session]
  split
  · exact .single (.close s hsocket)
  · exact .refl

theorem receiveData_effects (e : SocketEvent) (hsocket : s.socket = true) {data : List UInt8} (hdata : data ≠ [])
    (hmax : data.length ≤ s.maxmsg) :
    IcmpEffects s (s.receiveData e data) := by
  have hreply : IcmpEffect s _ := .reply s data (e.tun (s.reply data)) hsocket hdata hmax
  rw [receiveData]
  split
  · exact .single hreply
  · exact (ReflTransGen.single hreply).tail (.stop _)

theorem check_icmp_socket_effects (e : SocketEvent) (hsocket : s.socket = true) :
    IcmpEffects s (s.check_icmp_socket e) := by
  have htime : IcmpEffects s { s with time := e.now } := .single (.time s e.now)
  have hstop : IcmpEffects s { s with time := e.now, stop := true } := htime.tail (.stop _)
  rw [check_icmp_socket]
  split
  · exact hstop
  · split
    · split
      · exact htime
      · exact hstop
      · dsimp only
        split
        · exact hstop
        · rename_i hdata
          exact htime.trans (receiveData_effects (s := { s with time := e.now }) e hsocket hdata
            (List.length_take_le _ _))
    · exact .refl

theorem forward_effects (hsocket : s.socket = true) (now : Int) (result : SendtoResult) (message : List UInt8)
    (plen : BitVec 16)
    (nxt : UInt8) : IcmpEffects s (s.forward now result (request message s.addresses plen nxt)) := by
  have htime : IcmpEffects s { s with time := now } := .single (.time s now)
  cases result with
  | sent => exact htime.tail (.send _ message plen nxt hsocket)
  | again => exact htime
  | failed => exact htime.tail (.stop _)

/-- Nothing but a check closes the socket. -/
theorem freed_check_icmp_socket (e : SocketEvent) : (s.check_icmp_socket e).freed = s.freed := by
  rw [check_icmp_socket]
  split
  · rfl
  · split
    · split
      · rfl
      · rfl
      · dsimp only
        split <;> rfl
    · rfl

theorem freed_forward (now : Int) (result : SendtoResult) (message : List UInt8) :
    (s.forward now result message).freed = s.freed := by
  cases result <;> rfl

theorem consistent_new (addresses : Addresses) (now : Int) (message : List UInt8) :
    (new addresses now message).Consistent := rfl

end IcmpSession

end inspector.netguard.jni
