import Inspector.NetguardJni.SessionRuns

open bounded machine Relation

namespace inspector.netguard.jni

namespace NgSession

/-- The sessions whose number is limited: those that run, save for queries that are not
forwarded. -/
def limited (fwd53 : Bool) : NgSession → Bool
  | .udp s => s.state = .ACTIVE && (s.key.dest ≠ 53 || fwd53)
  | s => s.active

theorem active_of_limited {fwd53 : Bool} {s : NgSession} (hs : s.limited fwd53 = true) : s.active = true := by
  cases s with
  | icmp s => exact hs
  | tcp s => exact hs
  | udp s =>
    rw [limited, Bool.and_eq_true] at hs
    exact hs.1

end NgSession

namespace UdpSession

/-- No effect makes a session active. -/
theorem active_of_effects {s next : UdpSession} (heffects : UdpEffects s next) (hnext : next.state = .ACTIVE) :
    s.state = .ACTIVE := by
  induction heffects with
  | refl => exact hnext
  | tail _ heffect ih =>
    cases heffect with
    | time | recv | account | free | send => exact ih hnext
    | finish | close => cases hnext

end UdpSession

namespace TcpSession

/-- A session that ends does not begin again. -/
def Ending (s : TcpSession) : Prop := s.state = .CLOSING ∨ s.state = .CLOSE

theorem Ending.effect {P : Promise} {s next : TcpSession} (hs : s.Ending) (heffect : TcpEffect P s next) :
    next.Ending := by
  have hnot : ∀ state : TcpState, s.state = state → state = .CLOSING ∨ state = .CLOSE := by
    intro state hstate
    rw [← hstate]
    exact hs
  cases heffect with
  | quiet | window | queue | send | plain | acked | account | free | socks5 | close => exact hs
  | keepAlive whole hstate =>
    rcases hstate with hstate | hstate <;> exact absurd (hnot _ hstate) (by simp)
  | finQueued p hp hfin hstate => exact absurd (hnot _ hstate) (by simp)
  | closing => exact .inl rfl
  | closed => exact .inr rfl
  | refuse whole hstate => exact .inl rfl
  | synAck whole hstate => exact absurd (hnot _ hstate) (by simp)
  | confirmFin whole hstate => exact absurd (hnot _ hstate) (by simp)
  | established hstate => exact absurd (hnot _ hstate) (by simp)
  | fin whole p hp hfin hstate =>
    rcases hstate with ⟨hstate, -⟩ | ⟨hstate, -⟩ <;> exact absurd (hnot _ hstate) (by simp)
  | download data passed whole hstate =>
    rcases hstate with hstate | hstate <;> exact absurd (hnot _ hstate) (by simp)
  | serverFin whole hstate =>
    rcases hstate with hstate | hstate <;> exact absurd (hnot _ hstate) (by simp)

theorem not_active_iff (s : TcpSession) : (NgSession.tcp s).active = false ↔ s.Ending := by
  rw [NgSession.active, Ending]
  cases s.state <;> simp

end TcpSession

namespace Context

open NgSession

variable {config : NativeConfig} {ctx next : Context} {fwd53 : Bool}

theorem active_of_tcpEffects {P : Promise} {s t : TcpSession} (heffects : TcpEffects P s t)
    (ht : (NgSession.tcp t).active = true) : (NgSession.tcp s).active = true := by
  by_contra hnot
  have hending := (TcpSession.not_active_iff s).mp (eq_false_of_ne_true hnot)
  have hended : t.Ending := invariant_of_reflTransGen (fun _ _ hs heffect => hs.effect heffect) hending heffects
  rw [(TcpSession.not_active_iff t).mpr hended] at ht
  cases ht

/-- A session that evolves does not begin to run. -/
theorem limited_of_evolves {s t : NgSession} (hs : TcpConsistent s) (hst : Evolves config s t)
    (ht : t.limited fwd53 = true) : s.limited fwd53 = true := by
  cases hst with
  | @icmp s t heffects =>
    have hlive : t.stop = false := by simpa [limited, active] using ht
    have hstart : s.stop = false := by
      by_contra hnot
      rw [(IcmpSession.effects_start heffects).2.2 (eq_true_of_ne_false hnot)] at hlive
      cases hlive
    simp [limited, active, hstart]
  | @udp s t heffects =>
    rw [limited, Bool.and_eq_true, decide_eq_true_eq] at ht ⊢
    rw [← UdpSession.key_of_effects heffects]
    exact ⟨UdpSession.active_of_effects heffects ht.1, ht.2⟩
  | @tcp s t actions hhandled hrun =>
    by_contra hnot
    have hending := (TcpSession.not_active_iff s).mp (eq_false_of_ne_true hnot)
    have hended := (TcpSession.run_any_effects (I := TcpSession.Ending)
      (fun _ _ _ hs heffect => hs.effect heffect) hs hending
      hrun).2
    have hinactive : (NgSession.tcp t).active = true := ht
    rw [(TcpSession.not_active_iff t).mpr hended] at hinactive
    cases hinactive

theorem Distinct.changes (hctx : ctx.Distinct) (hchanges : Changes config ctx next) : next.Distinct :=
  invariant_of_reflTransGen (fun _ _ hctx hchange => hctx.change hchange) hctx hchanges

/-- Sessions that evolve do not begin to run. -/
theorem countP_settled (hctx : ctx.Distinct) (hsettled : Settled config ctx next) :
    next.ng_session.countP (limited fwd53) ≤ ctx.ng_session.countP (limited fwd53) := by
  induction hsettled with
  | refl => exact le_rfl
  | @tail middle next hbefore hsettles ih =>
    have hmiddle := hctx.changes (changes_of_settled hbefore)
    obtain ⟨last_check, sessions, hsessions, rfl⟩ := hsettles
    refine le_trans ?_ ih
    have hkept : ({ middle with last_check }.sweep sessions).ng_session.countP (limited fwd53) ≤
        sessions.countP (limited fwd53) := List.filter_sublist.countP_le
    refine hkept.trans (List.countP_le_of_forall₂ ?_)
    exact forall₂_imp_mem hsessions fun s hs t hst => limited_of_evolves (hmiddle.consistent s hs) hst

theorem countP_add (s : NgSession) : (ctx.add s).ng_session.countP (limited fwd53) =
    ctx.ng_session.countP (limited fwd53) + if s.limited fwd53 = true then 1 else 0 := List.countP_cons

theorem countP_add_le (s : NgSession) :
    (ctx.add s).ng_session.countP (limited fwd53) ≤ ctx.ng_session.countP (limited fwd53) + 1 := by
  rw [countP_add]
  split <;> omega

section handle

variable (a : Arguments) (r : Reception)

theorem countP_handle_icmp (hsound : ctx.Sound) (hctx : ctx.Distinct) (addresses : Addresses) (plen : BitVec 16)
    (protocol : UInt8) (message : List UInt8) :
    (ctx.handle_icmp r addresses plen protocol message).ng_session.countP (limited a.fwd53) ≤
      ctx.ng_session.countP (limited a.fwd53) + 1 := by
  have hcases : Settled a.config ctx (ctx.handle_icmp r addresses plen protocol message) ∨ _ :=
    handle_icmp_cases r hsound addresses plen protocol message
  obtain hsettled | ⟨⟨s, hadd⟩, -⟩ := hcases
  · exact (countP_settled hctx hsettled).trans (Nat.le_add_right _ _)
  · rw [hadd]
    exact countP_add_le s

/-- When there are too many sessions, a datagram makes one only for a query that is not
forwarded, and this is not counted. -/
theorem countP_handle_udp (hsound : ctx.Sound) (hctx : ctx.Distinct) {sessions : Nat} {redirect : Option Redirect}
    {key : SessionKey} {data : List UInt8} (hredirect : redirect = none ∨ ctx.ng_session.any (isUdp key) = false)
    (hfull : a.maxsessions ≤ sessions → ctx.has_udp_session a key = true)
    (hhandle : ctx.handle_udp r redirect key data = .ok next) :
    next.ng_session.countP (limited a.fwd53) ≤
      ctx.ng_session.countP (limited a.fwd53) + if a.maxsessions ≤ sessions then 0 else 1 := by
  have hcases : Settled a.config ctx next ∨ _ := handle_udp_cases r hsound hredirect hhandle
  obtain hsettled | ⟨⟨u, hkey, hadd⟩, hnone, -⟩ := hcases
  · exact (countP_settled hctx hsettled).trans (Nat.le_add_right _ _)
  · rw [hadd]
    by_cases hroom : a.maxsessions ≤ sessions
    · have hquery : key.dest = 53 ∧ a.fwd53 = false := by
        have hhas := hfull hroom
        rw [has_udp_session, hnone, Bool.or_false] at hhas
        simpa using hhas
      have hunlimited : (NgSession.udp u).limited a.fwd53 = false := by
        simp [limited, hkey, hquery.1, hquery.2]
      rw [countP_add, hunlimited, if_pos hroom]
      exact le_rfl
    · rw [if_neg hroom]
      exact countP_add_le _

/-- A packet of TCP that is handled makes a session at most for a SYN. -/
theorem countP_handle_tcp (hctx : ctx.Distinct) {received : List TcpArrival} {key : SessionKey} {p : TcpPacket}
    {options : OptionBytes} {tcpoptlen : Nat}
    (hhandle : { ctx with received }.handle_tcp r key p options tcpoptlen = .ok next) :
    next.ng_session.countP (limited fwd53) ≤ ctx.ng_session.countP (limited fwd53) + if p.syn = true then 1 else 0 := by
  rw [handle_tcp] at hhandle
  split at hhandle
  · cases hhandle
    refine le_trans (List.countP_le_of_forall₂ ?_) (Nat.le_add_right _ _)
    have hsame : List.Forall₂ (fun s t => t = s ∨ t = mapTcp (TcpSession.handle_tcp r.tun r.now p) s) ctx.ng_session
        (ctx.ng_session.modifyFirst (isTcp key) (mapTcp (TcpSession.handle_tcp r.tun r.now p))) :=
      List.forall₂_modifyFirst (fun _ => .inl rfl) fun _ _ => .inr rfl
    refine forall₂_imp_mem hsame fun s hs t hst ht => ?_
    rcases hst with rfl | rfl
    · exact ht
    · cases s with
      | icmp s => exact ht
      | udp s => exact ht
      | tcp s =>
        have hconsistent : s.Consistent := hctx.consistent _ hs
        have heffects : TcpEffects (fun _ _ _ => True) s (s.handle_tcp r.tun r.now p) :=
          TcpSession.handle_effects hconsistent trivial
        exact active_of_tcpEffects heffects ht
  · split at hhandle
    · cases hhandle
      exact Nat.le_add_right _ _
    · split at hhandle
      · rename_i hsyn
        rw [if_pos hsyn]
        split at hhandle
        · cases hhandle
        · split at hhandle
          · cases hhandle
            exact countP_add_le _
          · cases hhandle
            exact Nat.le_add_right _ _
      · cases hhandle
        exact Nat.le_add_right _ _

/-- A packet adds one session to the limited ones at most, and none when there are too many. -/
theorem countP_handle_ip (hsound : ctx.Sound) (hctx : ctx.Distinct) {sessions : Nat} {p : IpPacket}
    (hhandle : ctx.handle_ip a sessions r p = .ok next) :
    next.ng_session.countP (limited a.fwd53) ≤
      ctx.ng_session.countP (limited a.fwd53) + if a.maxsessions ≤ sessions then 0 else 1 := by
  have hrecord : (ctx.record p).ng_session = ctx.ng_session := by
    rw [record]
    split <;> rfl
  obtain ⟨addresses, payload⟩ := p
  obtain ⟨-, -, hnext⟩ | ⟨redirect, hfull, hallowed, hdispatch⟩ | ⟨-, hblocked, hnext⟩ :=
    handle_ip_cases a sessions r hhandle
  · rw [hnext, hrecord]
    exact Nat.le_add_right _ _
  · cases payload with
    | icmp plen protocol message =>
      have hroom : ¬ a.maxsessions ≤ sessions := fun hle => Bool.noConfusion (hfull hle)
      rw [if_neg hroom]
      cases hdispatch
      exact countP_handle_icmp a r hsound hctx addresses plen protocol message
    | udp source dest data =>
      have hredirect : redirect = none ∨ ctx.ng_session.any (isUdp ⟨addresses, source, dest⟩) = false := by
        by_cases hhas : ctx.has_udp_session a ⟨addresses, source, dest⟩ = true
        · exact .inl (Option.some.inj ((if_pos hhas).symm.trans hallowed)).symm
        · exact .inr (not_any_of_not_has a hhas)
      refine countP_handle_udp a r hsound hctx hredirect (fun hroom => ?_) hdispatch
      have hopen : ctx.mayOpen a ⟨addresses, .udp source dest data⟩ = false := hfull hroom
      simpa [mayOpen] using hopen
    | tcp source dest segment options tcpoptlen =>
      refine (countP_handle_tcp r hctx hdispatch).trans (Nat.add_le_add_left ?_ _)
      by_cases hroom : a.maxsessions ≤ sessions
      · have hsyn : segment.syn = false := hfull hroom
        rw [hsyn]
        simp
      · rw [if_neg hroom]
        split <;> omega
    | other =>
      cases hdispatch
      rw [hrecord]
      exact Nat.le_add_right _ _
  · cases payload with
    | udp source dest data =>
      rw [hblocked source dest data rfl, block_udp, countP_add, hrecord]
      have hunlimited : ∀ key now mss sent received,
          (NgSession.udp (UdpSession.blocked key now mss sent received)).limited a.fwd53 = false := fun _ _ _ _ _ => rfl
      rw [hunlimited]
      simp
    | icmp | tcp | other =>
      rw [hnext (by simp), hrecord]
      exact Nat.le_add_right _ _

theorem countP_read (hsound : ctx.Sound) (hctx : ctx.Distinct) {sessions : Nat} {packets : List (Reception × IpPacket)}
    (hread : ctx.read a sessions packets = .ok next) :
    next.ng_session.countP (limited a.fwd53) ≤
      ctx.ng_session.countP (limited a.fwd53) + if a.maxsessions ≤ sessions then 0 else TUN_YIELD := by
  have hlength : (packets.take TUN_YIELD).length ≤ TUN_YIELD := List.length_take_le _ _
  have hcount : next.ng_session.countP (limited a.fwd53) ≤
      ctx.ng_session.countP (limited a.fwd53) +
        if a.maxsessions ≤ sessions then 0 else (packets.take TUN_YIELD).length := by
    rw [read] at hread
    generalize packets.take TUN_YIELD = taken at hread
    induction taken generalizing ctx with
    | nil =>
      cases hread
      exact Nat.le_add_right _ _
    | cons packet rest ih =>
      obtain ⟨middle, hpacket, hrest⟩ := run_cons_ok.mp hread
      have hchanges : Changes a.config ctx middle := handle_ip_changes a sessions packet.1 hsound hpacket
      have hfirst := countP_handle_ip a packet.1 hsound hctx hpacket
      have hothers := ih (hsound.changes hchanges) (hctx.changes hchanges) hrest
      rw [List.length_cons]
      by_cases hfull : a.maxsessions ≤ sessions
      · rw [if_pos hfull] at hfirst hothers ⊢
        omega
      · rw [if_neg hfull] at hfirst hothers ⊢
        omega
  refine hcount.trans (Nat.add_le_add_left ?_ _)
  split
  · exact le_rfl
  · exact hlength

end handle

variable {a : Arguments}

/-- Behind the check, a pass makes sessions only for the packets that it reads. -/
theorem countP_pass_le (hsound : ctx.Sound) (hctx : ctx.Distinct) {p : Pass} (hpass : ctx.pass a p = .ok next) :
    next.ng_session.countP (limited a.fwd53) ≤
      (((ctx.monitor p).check a p (ctx.ng_session.countP NgSession.active)).poll a.config p.before).ng_session.countP
        (limited a.fwd53) + if a.maxsessions ≤ ctx.ng_session.countP NgSession.active then 0 else TUN_YIELD := by
  rw [pass] at hpass
  have hchanges := changes_of_settled (before_settled (a := a) hsound p (ctx.ng_session.countP NgSession.active))
  split at hpass
  · rename_i middle hread
    cases hpass
    have hsound' := hsound.changes hchanges
    have hctx' := hctx.changes hchanges
    have hpackets : Changes a.config _ middle := read_changes a _ hsound' hread
    have hpolled : Settled a.config middle (middle.poll a.config p.after) :=
      poll_settled (hsound'.changes hpackets) p.after
    exact (countP_settled (hctx'.changes hpackets) hpolled).trans (countP_read a hsound' hctx' hread)
  · cases hpass

/-- The sessions are counted before the packets of a pass are read. -/
theorem countP_pass (hsound : ctx.Sound) (hctx : ctx.Distinct) {p : Pass} (hpass : ctx.pass a p = .ok next)
    (hlimit : ctx.ng_session.countP (limited a.fwd53) < a.maxsessions + TUN_YIELD) :
    next.ng_session.countP (limited a.fwd53) < a.maxsessions + TUN_YIELD := by
  have hsettled := before_settled (a := a) hsound p (ctx.ng_session.countP NgSession.active)
  have hbefore : List.countP (limited a.fwd53) _ ≤ _ := countP_settled hctx hsettled
  have hactive : ctx.ng_session.countP (limited a.fwd53) ≤ ctx.ng_session.countP NgSession.active :=
    List.countP_mono_left fun s _ hs => active_of_limited hs
  have hafter := countP_pass_le hsound hctx hpass
  by_cases hfull : a.maxsessions ≤ ctx.ng_session.countP NgSession.active
  · rw [if_pos hfull] at hafter
    omega
  · rw [if_neg hfull] at hafter
    omega

/-- In every run of the thread, there are always fewer running sessions than the limit and
the packets of one pass together, if queries that are not forwarded are not counted. -/
theorem limited_lt_of_run {actions : List Action} {final : Context} (hrun : run (step a) initial actions = .ok final) :
    final.ng_session.countP (limited a.fwd53) < a.maxsessions + TUN_YIELD := by
  have hyield : 0 < TUN_YIELD := Nat.succ_pos 9
  refine (run_invariant (I := fun ctx => (ctx.Sound ∧ ctx.Distinct) ∧
    ctx.ng_session.countP (limited a.fwd53) < a.maxsessions + TUN_YIELD) ?_
    ⟨⟨sound_initial, distinct_initial⟩, Nat.add_pos_right _ hyield⟩ hrun).2
  intro ctx action next hinvariant hstep
  obtain ⟨⟨hsound, hctx⟩, hlimit⟩ := hinvariant
  have hchanges := step_changes hsound hstep
  refine ⟨⟨hsound.changes hchanges, hctx.changes hchanges⟩, ?_⟩
  cases action with
  | start still tun =>
    cases hstep
    have hsettled : Settled a.config ctx _ := .single (check_allowed_settles hsound still tun)
    exact (countP_settled hctx hsettled).trans_lt hlimit
  | pass p => exact countP_pass hsound hctx hstep hlimit
  | clear =>
    cases hstep
    exact Nat.add_pos_right _ hyield

/-- The packets of one pass go beyond a limit of one session. -/
theorem first_packets_limited : ∃ final,
    run (step { plainArguments with maxsessions := 1 }) initial [.pass (plainPass 10 firstPackets [])] = .ok final ∧
      final.ng_session.countP (limited plainArguments.fwd53) = 3 ∧
      final.ng_session.countP (limited plainArguments.fwd53) < 1 + TUN_YIELD := by
  obtain ⟨final, hrun, hcount⟩ : ∃ final,
      run (step { plainArguments with maxsessions := 1 }) initial [.pass (plainPass 10 firstPackets [])] = .ok final ∧
        final.ng_session.countP (limited plainArguments.fwd53) = 3 := ⟨_, rfl, by decide⟩
  exact ⟨final, hrun, hcount, limited_lt_of_run hrun⟩

end Context

end inspector.netguard.jni
