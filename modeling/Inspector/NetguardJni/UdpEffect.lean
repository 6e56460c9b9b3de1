import Inspector.Base.Machine
import Inspector.NetguardJni.Sessions

open bounded machine Relation

namespace inspector.netguard.jni

/-- The single effects of a UDP session. Every call is a sequence of them. -/
inductive UdpEffect : UdpSession → UdpSession → Prop where
  | time (s : UdpSession) (time : Int) : UdpEffect s { s with time }
  | finish (s : UdpSession) (hsocket : s.socket = true) : UdpEffect s { s with state := .FINISHING }
  | recv (s : UdpSession) (data passed : List UInt8) (whole : Bool) (hsocket : s.socket = true) (hdata : data ≠ [])
      (hpassed : s.key.dest ≠ 53 → passed = data) :
      UdpEffect s { s with
        received := s.received + BitVec.ofNat 64 data.length
        log := s.log ++ [.recv data, .tun passed whole] }
  | send (s : UdpSession) (redirect : Option Redirect) (data : List UInt8) (hstate : s.state = .ACTIVE)
      (hredirect : redirect = none ∨ s.log = []) :
      UdpEffect s { s with
        sent := s.sent + BitVec.ofNat 64 data.length
        log := s.log ++ [.send redirect data] }
  | close (s : UdpSession) (hstate : s.state = .FINISHING) :
      UdpEffect s { s with socket := false, state := .CLOSED, log := s.log ++ [.close] }
  | account (s : UdpSession) (hstate : s.state = .CLOSED) :
      UdpEffect s { s with sent := 0, received := 0, log := s.log ++ [.account_usage s.sent s.received] }
  | free (s : UdpSession) (hstate : s.state = .BLOCKED ∨ s.state = .CLOSED ∧ s.sent = 0 ∧ s.received = 0) :
      UdpEffect s { s with freed := true }

abbrev UdpEffects : UdpSession → UdpSession → Prop := ReflTransGen UdpEffect

namespace UdpSession

/-- The states in which the socket is open. -/
def Consistent (s : UdpSession) : Prop := s.socket = true ↔ s.state = .ACTIVE ∨ s.state = .FINISHING

variable {s next : UdpSession}

/-- Each effect keeps the socket and the state in step. -/
theorem Consistent.effect (hs : s.Consistent) (heffect : UdpEffect s next) : next.Consistent := by
  cases heffect with
  | time | recv | send | account | free => exact hs
  | finish hsocket => exact iff_of_true hsocket (.inr rfl)
  | close => exact iff_of_false (by simp) (by simp)

/-- The same for a series of effects. -/
theorem Consistent.effects (hs : s.Consistent) (heffects : UdpEffects s next) : next.Consistent :=
  invariant_of_reflTransGen (fun _ _ ht heffect => ht.effect heffect) hs heffects

/-- Whose session it is, stays. -/
theorem key_of_effects (heffects : UdpEffects s next) : next.key = s.key := by
  induction heffects with
  | refl => rfl
  | tail _ heffect ih =>
    rw [← ih]
    cases heffect <;> rfl

section check

variable (c : Check)

/-- A session that waits too long begins to finish. -/
theorem checkTimeout_effects (hs : s.Consistent) : UdpEffects s (s.checkTimeout c) := by
  rw [checkTimeout]
  split
  · rename_i htimeout
    exact .single (.finish s (hs.mpr (.inl htimeout.1)))
  · exact .refl

/-- A finishing session closes its socket. -/
theorem checkFinishing_effects : UdpEffects s (s.checkFinishing c) := by
  rw [checkFinishing]
  split
  · rename_i hstate
    exact (ReflTransGen.single (.close s hstate)).tail (.time _ c.later)
  · exact .refl

/-- The usage is told behind the close. -/
theorem checkUsage_effects : UdpEffects s s.checkUsage := by
  rw [checkUsage]
  split
  · rename_i husage
    exact .single (.account s husage.1)
  · exact .refl

/-- A closed session has nothing left to tell behind that. -/
theorem checkUsage_cases (s : UdpSession) :
    s.checkUsage.state = s.state ∧ (s.state = .CLOSED → s.checkUsage.sent = 0 ∧ s.checkUsage.received = 0) := by
  rw [checkUsage]
  split
  · exact ⟨rfl, fun _ => ⟨rfl, rfl⟩⟩
  · rename_i hnone
    refine ⟨rfl, fun hstate => ?_⟩
    rw [not_and, not_or, not_not, not_not] at hnone
    exact hnone hstate

/-- The check of a session is made of its three parts. -/
theorem check_effects (hs : s.Consistent) : UdpEffects s (s.check_udp_session c) := by
  have hfinished := (checkTimeout_effects c hs).trans (checkFinishing_effects c)
  have husage := hfinished.trans checkUsage_effects
  rw [check_udp_session]
  obtain ⟨hstate, htold⟩ := checkUsage_cases ((s.checkTimeout c).checkFinishing c)
  split
  · rename_i hfree
    refine husage.tail (.free _ ?_)
    rcases hfree.1 with hclosed | hblocked
    · exact .inr ⟨hclosed, htold (hstate ▸ hclosed)⟩
    · exact .inl hblocked
  · exact husage

end check

section socket

variable (config : NativeConfig) (r : Read)

/-- Only what a name server sends is changed on its way. -/
theorem passOn_of_ne (hdest : s.key.dest ≠ 53) (data : List UInt8) : s.passOn config data = data := by
  rw [passOn, if_neg hdest]

/-- A datagram that comes in is written to the app at once. -/
theorem receiveData_effects (hsocket : s.socket = true) {data : List UInt8} (hdata : data ≠ []) :
    UdpEffects s (s.receiveData config r data) := by
  have hrecv : UdpEffect s _ :=
    .recv s data (s.passOn config data) (r.tun (s.passOn config data)) hsocket hdata fun hdest =>
      passOn_of_ne config hdest data
  rw [receiveData]
  split
  · exact (ReflTransGen.single hrecv).tail (.finish _ hsocket)
  · exact .single hrecv

/-- The events of a socket bring a datagram or finish the session. -/
theorem check_udp_socket_effects (hsocket : s.socket = true) (error input : Bool) :
    UdpEffects s (s.check_udp_socket config r error input) := by
  have htime : UdpEffects s { s with time := r.now } := .single (.time s r.now)
  have hfinish : UdpEffects s { s with time := r.now, state := .FINISHING } := htime.tail (.finish _ hsocket)
  rw [check_udp_socket]
  split
  · exact hfinish
  · split
    · split
      · exact htime
      · exact hfinish
      · dsimp only
        split
        · exact hfinish
        · rename_i hdata
          exact htime.trans (receiveData_effects (s := { s with time := r.now }) config r hsocket hdata)
    · exact .refl

/-- Reading a socket does not close it. -/
theorem socket_of_check (hsocket : s.socket = true) (error input : Bool) :
    (s.check_udp_socket config r error input).socket = true := by
  rw [check_udp_socket]
  split
  · exact hsocket
  · split
    · split
      · exact hsocket
      · exact hsocket
      · dsimp only
        split <;> exact hsocket
    · exact hsocket

/-- Nor does it free the session. -/
theorem freed_check_udp_socket (error input : Bool) : (s.check_udp_socket config r error input).freed = s.freed := by
  rw [check_udp_socket]
  split
  · rfl
  · split
    · split
      · rfl
      · rfl
      · dsimp only
        split <;> rfl
    · rfl

/-- Nothing but a check frees a session. -/
theorem freed_readSocket (error input : Bool) (reads : List Read) :
    (s.readSocket config error input reads).freed = s.freed := by
  rw [readSocket]
  split
  · generalize reads.take UDP_YIELD = taken
    induction taken generalizing s with
    | nil => rfl
    | cons r rest ih => exact ih.trans (freed_check_udp_socket config r error input)
  · rfl

/-- The same for all that a socket delivers in a pass. -/
theorem readSocket_effects (hsocket : s.socket = true) (error input : Bool) (reads : List Read) :
    UdpEffects s (s.readSocket config error input reads) := by
  rw [readSocket]
  split
  · generalize reads.take UDP_YIELD = taken
    induction taken generalizing s with
    | nil => exact .refl
    | cons r rest ih =>
      have hread := check_udp_socket_effects config r hsocket error input
      exact hread.trans (ih (socket_of_check config r hsocket error input))
  · exact .refl

end socket

/-- A datagram that goes out. -/
theorem forward_effects (hs : s.Consistent) (hstate : s.state = .ACTIVE) (now : Int) {redirect : Option Redirect}
    (hredirect : redirect = none ∨ s.log = []) (result : SendtoResult) (data : List UInt8) :
    UdpEffects s (s.forward now redirect result data) := by
  have htime : UdpEffects s { s with time := now } := .single (.time s now)
  cases result with
  | sent => exact htime.tail (.send _ redirect data hstate hredirect)
  | again => exact htime
  | failed => exact htime.tail (.finish _ (hs.mpr (.inl hstate)))

/-- A datagram of the app is sent, and redirected only when it is the first one. -/
theorem handle_effects (hs : s.Consistent) (hstate : s.state = .ACTIVE) {r : Reception} {redirect : Option Redirect}
    (hredirect : redirect = none ∨ s.log = []) {data : List UInt8} (hhandle : s.handle_udp r redirect data = .ok next) :
    UdpEffects s next := by
  rw [handle_udp] at hhandle
  split at hhandle
  · rcases check_dhcp_cases r.datagrams s data with ⟨-, hfault⟩ | ⟨-, done, hdone⟩
    · rw [hfault] at hhandle
      cases hhandle
    · rw [hdone] at hhandle
      cases done with
      | true =>
        cases hhandle
        exact .refl
      | false =>
        cases hhandle
        exact forward_effects hs hstate r.now hredirect r.sendto data
  · cases hhandle
    exact forward_effects hs hstate r.now hredirect r.sendto data

/-- A datagram of the app frees nothing. -/
theorem freed_handle {r : Reception} {redirect : Option Redirect} {data : List UInt8}
    (hhandle : s.handle_udp r redirect data = .ok next) : next.freed = s.freed := by
  have hforward : (s.forward r.now redirect r.sendto data).freed = s.freed := by
    cases r.sendto <;> rfl
  rw [handle_udp] at hhandle
  split at hhandle
  · rcases check_dhcp_cases r.datagrams s data with ⟨-, hfault⟩ | ⟨-, done, hdone⟩
    · rw [hfault] at hhandle
      cases hhandle
    · rw [hdone] at hhandle
      cases done with
      | true =>
        cases hhandle
        rfl
      | false =>
        cases hhandle
        exact hforward
  · cases hhandle
    exact hforward

/-- A session that is no longer allowed begins to finish. -/
theorem disallow_effects (hs : s.Consistent) :
    UdpEffects s (if s.state = .ACTIVE then { s with state := .FINISHING } else s) := by
  split
  · rename_i hstate
    exact .single (.finish s (hs.mpr (.inl hstate)))
  · exact .refl

/-- A blocked session is freed when its verdict is asked for anew. -/
theorem unblock_effects : UdpEffects s (if s.state = .BLOCKED then { s with freed := true } else s) := by
  split
  · rename_i hstate
    exact .single (.free s (.inl hstate))
  · exact .refl

/-- A new session has an open socket. -/
theorem consistent_new (key : SessionKey) (now : Int) (redirect : Option Redirect) :
    (new key now redirect).Consistent :=
  iff_of_true rfl (.inl rfl)

/-- A blocked session has none. -/
theorem consistent_blocked (key : SessionKey) (now : Int) (mss : BitVec 16) (sent received : BitVec 64) :
    (blocked key now mss sent received).Consistent :=
  iff_of_false (by simp [blocked]) (by simp [blocked])

end UdpSession

end inspector.netguard.jni
