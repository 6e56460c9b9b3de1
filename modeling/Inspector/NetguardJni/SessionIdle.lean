import Inspector.NetguardJni.SessionLimit

open machine Relation

namespace inspector.netguard.jni

/-- A timeout is not positive when the sessions use up what they may. -/
theorem scaled_nonpos {timeout sessions maxsessions : Int} (htimeout : 0 ≤ timeout) (hpos : 0 < maxsessions)
    (hfull : maxsessions ≤ sessions) : (timeout * (100 - (sessions * 100).tdiv maxsessions)).tdiv 100 ≤ 0 := by
  have hshare : 100 ≤ (sessions * 100).tdiv maxsessions := Int.le_tdiv_of_mul_le hpos (by omega)
  have hproduct : timeout * (100 - (sessions * 100).tdiv maxsessions) ≤ 0 :=
    Int.mul_nonpos_of_nonneg_of_nonpos htimeout (by omega)
  have hzero : (0 : Int).tdiv 100 = 0 := rfl
  exact (Int.tdiv_le_tdiv (by omega) hproduct).trans_eq hzero

namespace TcpSession

variable {s : TcpSession} {tun : Tun}

@[simp] theorem time_writeOrClose (data : List UInt8) (syn ack fin : Bool) :
    (s.writeOrClose tun data syn ack fin).1.time = s.time := by
  rcases writeOrClose_cases s tun data syn ack fin with heq | heq <;> rw [heq] <;> rfl

@[simp] theorem time_keepAlive (m : Monitor) : (s.keepAlive m).time = s.time := by
  rw [keepAlive]
  split
  · simp [write_ack]
  · rfl

@[simp] theorem time_monitorEvents (m : Monitor) : (s.monitorEvents m).1.time = s.time := by
  rw [monitorEvents]
  split
  · rfl
  · split <;> simp
  · split <;> simp
  · rfl

/-- Choosing the events to wait for is no use of a session. -/
theorem time_monitor (m : Monitor) : (s.monitor_tcp_session m).time = s.time := by
  rw [monitor_tcp_session]
  dsimp only
  split
  · split <;> simp
  · simp

section check

variable {c : Check}

/-- A session that waits too long is ending behind the check of its time. -/
theorem ending_checkTimeout (hidle : s.time + get_tcp_timeout s.state c.sessions c.maxsessions < c.now) :
    (s.checkTimeout c).Ending := by
  rw [checkTimeout]
  split
  · rename_i hopen
    split
    · exact .inl rfl
    · exact .inl ((write_rst_cases s c.tun).2.2 hopen.2.1)
  · rename_i hended
    by_contra hnot
    exact hended ⟨fun hclosing => hnot (.inl hclosing), fun hclose => hnot (.inr hclose), hidle⟩

/-- An ending session stays so when its socket is closed. -/
theorem Ending.checkClosing (hs : s.Ending) : (s.checkClosing c).Ending := by
  rw [TcpSession.checkClosing]
  split
  · exact .inr rfl
  · exact hs

/-- An ending session stays so when its usage is told. -/
theorem Ending.checkUsage (hs : s.Ending) : s.checkUsage.Ending := by
  rw [TcpSession.checkUsage]
  split
  · exact hs
  · exact hs

/-- A session that runs behind a check was used within its timeout. -/
theorem time_of_check (hactive : (NgSession.tcp (s.check_tcp_session c)).active = true) :
    c.now ≤ s.time + get_tcp_timeout s.state c.sessions c.maxsessions := by
  by_contra hidle
  have hending := (ending_checkTimeout (Int.not_le.mp hidle)).checkClosing (c := c) |>.checkUsage
  have hended : (s.check_tcp_session c).Ending := by
    rw [check_tcp_session]
    split
    · exact hending
    · exact hending
  rw [(not_active_iff _).mpr hended] at hactive
  cases hactive

/-- In a full list the timeouts of TCP are scaled to nothing. -/
theorem get_tcp_timeout_nonpos (state : TcpState) {sessions maxsessions : Int} (hpos : 0 < maxsessions)
    (hfull : maxsessions ≤ sessions) : get_tcp_timeout state sessions maxsessions ≤ 0 := by
  cases state <;> exact scaled_nonpos (by decide) hpos hfull

end check

end TcpSession

namespace UdpSession

variable {s : UdpSession} {c : Check}

@[simp] theorem state_checkUsage : s.checkUsage.state = s.state := by
  rw [checkUsage]
  split <;> rfl

/-- A session that is active behind a check was used within its timeout. -/
theorem time_of_check (hactive : (s.check_udp_session c).state = .ACTIVE) :
    c.now ≤ s.time + get_udp_timeout s.key.dest c.sessions c.maxsessions := by
  by_contra hidle
  have hended : ((s.checkTimeout c).checkFinishing c).state ≠ .ACTIVE := by
    by_cases hstate : s.state = .ACTIVE
    · rw [checkTimeout, if_pos ⟨hstate, Int.not_le.mp hidle⟩, checkFinishing, if_pos rfl]
      simp
    · rw [checkTimeout, if_neg fun hboth => hstate hboth.1, checkFinishing]
      split
      · simp
      · exact hstate
  rw [check_udp_session] at hactive
  split at hactive
  · exact hended (state_checkUsage.symm.trans hactive)
  · exact hended (state_checkUsage.symm.trans hactive)

/-- In a full list the timeouts of UDP are scaled to nothing. -/
theorem get_udp_timeout_nonpos (dest : BitVec 16) {sessions maxsessions : Int} (hpos : 0 < maxsessions)
    (hfull : maxsessions ≤ sessions) : get_udp_timeout dest sessions maxsessions ≤ 0 := by
  rw [get_udp_timeout]
  refine scaled_nonpos ?_ hpos hfull
  split <;> decide

end UdpSession

namespace IcmpSession

variable {s : IcmpSession} {c : Check}

/-- A session that a check does not free was used within its timeout. -/
theorem time_of_check (hlive : (s.check_icmp_session c).freed = false) :
    c.now ≤ s.time + get_icmp_timeout c.sessions c.maxsessions := by
  rw [check_icmp_session] at hlive
  split at hlive
  · cases hlive
  · rename_i hbusy
    exact Int.not_lt.mp fun hidle => hbusy (.inr hidle)

/-- In a full list the timeout of ICMP is scaled to nothing. -/
theorem get_icmp_timeout_nonpos {sessions maxsessions : Int} (hpos : 0 < maxsessions) (hfull : maxsessions ≤ sessions) :
    get_icmp_timeout sessions maxsessions ≤ 0 := scaled_nonpos (by decide) hpos hfull

end IcmpSession

namespace NgSession

/-- When a session was used last. -/
def time : NgSession → Int
  | .icmp s => s.time
  | .udp s => s.time
  | .tcp s => s.time

/-- The limited sessions that were used since some time. -/
def used (fwd53 : Bool) (now : Int) (s : NgSession) : Bool := s.limited fwd53 && now ≤ s.time

/-- A session counts as used when it is limited and its time is recent. -/
theorem used_iff {fwd53 : Bool} {now : Int} {s : NgSession} :
    s.used fwd53 now = true ↔ s.limited fwd53 = true ∧ now ≤ s.time := by
  rw [used, Bool.and_eq_true, decide_eq_true_eq]

end NgSession

namespace Context

open NgSession

variable {a : Arguments} {ctx next : Context} {fwd53 : Bool} {now : Int}

/-- With too many sessions, a check leaves only those that were used just now. -/
theorem time_of_checkSession {sessions : Nat} (hpos : 0 < a.maxsessions) (hfull : a.maxsessions ≤ sessions) {c : Clock}
    {s : NgSession} (hactive : (checkSession a sessions c s).active = true)
    (hlive : (checkSession a sessions c s).freed = false) : c.now ≤ s.time := by
  have hpos' : (0 : Int) < a.maxsessions := Int.ofNat_lt.mpr hpos
  have hfull' : (a.maxsessions : Int) ≤ sessions := Int.ofNat_le.mpr hfull
  cases s with
  | icmp s =>
    have hbusy := IcmpSession.time_of_check hlive
    have htimeout := IcmpSession.get_icmp_timeout_nonpos hpos' hfull'
    exact hbusy.trans (add_le_of_nonpos_right htimeout)
  | udp s =>
    have hbusy := UdpSession.time_of_check (of_decide_eq_true hactive)
    have htimeout := UdpSession.get_udp_timeout_nonpos s.key.dest hpos' hfull'
    exact hbusy.trans (add_le_of_nonpos_right htimeout)
  | tcp s =>
    have hbusy := TcpSession.time_of_check hactive
    have htimeout := TcpSession.get_tcp_timeout_nonpos s.state hpos' hfull'
    exact hbusy.trans (add_le_of_nonpos_right htimeout)

/-- A due check of a full list leaves only sessions that were used since then. -/
theorem countP_check (hsound : ctx.Sound) (hctx : ctx.Distinct) {sessions : Nat} (hpos : 0 < a.maxsessions)
    (hfull : a.maxsessions ≤ sessions) {p : Pass} (hdue : EPOLL_MIN_CHECK < p.ms - ctx.last_check)
    (hclocks : ∀ i, now ≤ (p.clocks i).now) :
    (ctx.check a p sessions).ng_session.countP (limited fwd53) ≤ ctx.ng_session.countP (used fwd53 now) := by
  rw [check, if_pos hdue, sweep, List.countP_filter]
  refine List.countP_le_of_forall₂ (forall₂_mapIdx fun i s hs hkept => ?_)
  rw [Bool.and_eq_true] at hkept
  obtain ⟨hlimited, hlive⟩ := hkept
  have hevolves : Evolves a.config s _ := checkSession_evolves a sessions (p.clocks i) (hsound s hs)
  have htime := time_of_checkSession hpos hfull (active_of_limited hlimited) (by simpa using hlive)
  exact used_iff.mpr ⟨limited_of_evolves (hctx.consistent s hs) hevolves hlimited, (hclocks i).trans htime⟩

/-- To monitor the sessions is not to use them. -/
theorem countP_monitor (hctx : ctx.Distinct) (p : Pass) :
    (ctx.monitor p).ng_session.countP (used fwd53 now) ≤ ctx.ng_session.countP (used fwd53 now) := by
  refine List.countP_le_of_forall₂ (forall₂_mapIdx fun i s hs hused => ?_)
  cases s with
  | icmp s => exact hused
  | udp s => exact hused
  | tcp s =>
    rw [mapTcp] at hused
    split at hused
    · rename_i hsocket
      obtain ⟨hactive, htime⟩ := used_iff.mp hused
      have hconsistent : s.Consistent := hctx.consistent _ hs
      have heffects : TcpEffects (fun _ _ _ => True) s (s.monitor_tcp_session (p.monitors i)) :=
        TcpSession.monitor_effects (p.monitors i) hconsistent hsocket
      have hkept : (s.monitor_tcp_session (p.monitors i)).time = s.time := TcpSession.time_monitor _
      rw [NgSession.time, hkept] at htime
      exact used_iff.mpr ⟨active_of_tcpEffects heffects hactive, htime⟩
    · exact hused

/-- When a pass begins with as many running sessions as there may be, and checks them, then
those that run behind it are at most as many as were used since the check began, if queries
that are not forwarded are not counted. -/
theorem limited_le_of_full {actions : List Action} (hrun : run (step a) initial actions = .ok ctx) {p : Pass}
    (hpass : ctx.pass a p = .ok next) (hpos : 0 < a.maxsessions)
    (hfull : a.maxsessions ≤ ctx.ng_session.countP NgSession.active)
    (hdue : EPOLL_MIN_CHECK < p.ms - ctx.last_check) (hclocks : ∀ i, now ≤ (p.clocks i).now) :
    next.ng_session.countP (limited a.fwd53) ≤ ctx.ng_session.countP (used a.fwd53 now) := by
  obtain ⟨hsound, hctx⟩ := run_changes (fun _ _ _ hctx hchange => Distinct.change hctx hchange) sound_initial
    distinct_initial hrun
  have hmonitor : Settled a.config ctx (ctx.monitor p) := monitor_settled hsound p
  have hsound' := hsound.changes (changes_of_settled hmonitor)
  have hctx' := hctx.changes (changes_of_settled hmonitor)
  have hcheck : List.countP (limited a.fwd53) _ ≤ _ :=
    (countP_check hsound' hctx' hpos hfull hdue hclocks).trans (countP_monitor hctx p)
  have hchecked : Settled a.config ctx ((ctx.monitor p).check a p (ctx.ng_session.countP NgSession.active)) :=
    hmonitor.trans (check_settled a hsound' p _)
  have hpolled : Settled a.config _ _ := poll_settled (hsound.changes (changes_of_settled hchecked)) p.before
  have hbefore : List.countP (limited a.fwd53) _ ≤ _ :=
    countP_settled (hctx.changes (changes_of_settled hchecked)) hpolled
  have hafter := countP_pass_le hsound hctx hpass
  rw [if_pos hfull, Nat.add_zero] at hafter
  exact hafter.trans (hbefore.trans hcheck)

/-- A thread that may run one session. -/
def narrowArguments : Arguments := { plainArguments with maxsessions := 1 }

/-- Three sessions are more than one, and the next pass ends all of them. -/
theorem first_packets_idle : ∃ ctx next,
    run (step narrowArguments) initial [.pass (plainPass 10 firstPackets [])] = .ok ctx ∧
      ctx.pass narrowArguments (plainPass 20 [] []) = .ok next ∧
      ctx.ng_session.countP NgSession.active = 3 ∧ ctx.ng_session.countP (used narrowArguments.fwd53 20) = 0 ∧
      next.ng_session.countP (limited narrowArguments.fwd53) ≤
        ctx.ng_session.countP (used narrowArguments.fwd53 20) := by
  obtain ⟨ctx, next, hrun, hpass, hactive, hused, hdue⟩ : ∃ ctx next,
      run (step narrowArguments) initial [.pass (plainPass 10 firstPackets [])] = .ok ctx ∧
        ctx.pass narrowArguments (plainPass 20 [] []) = .ok next ∧
        ctx.ng_session.countP NgSession.active = 3 ∧ ctx.ng_session.countP (used narrowArguments.fwd53 20) = 0 ∧
        EPOLL_MIN_CHECK < 20000 - ctx.last_check := ⟨_, _, rfl, rfl, by decide, by decide, by decide⟩
  refine ⟨ctx, next, hrun, hpass, hactive, hused, ?_⟩
  exact limited_le_of_full hrun hpass Nat.one_pos (by rw [hactive]; decide) hdue fun _ => le_rfl

end Context

end inspector.netguard.jni
