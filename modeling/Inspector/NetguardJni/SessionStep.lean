import Inspector.NetguardJni.SessionEffect

open bounded machine Relation

namespace inspector.netguard.jni

namespace Context

open NgSession

variable {config : NativeConfig} {ctx next : Context}

/-- The sessions of a list, each changed at its place. -/
theorem forall₂_mapIdx {R : NgSession → NgSession → Prop} {sessions : List NgSession} {f : Nat → NgSession → NgSession}
    (hf : ∀ i, ∀ s ∈ sessions, R s (f i s)) : List.Forall₂ R sessions (sessions.mapIdx f) := by
  induction sessions generalizing f with
  | nil => exact .nil
  | cons s rest ih =>
    rw [List.mapIdx_cons]
    exact .cons (hf 0 s List.mem_cons_self) (ih fun i t ht => hf (i + 1) t (List.mem_cons_of_mem s ht))

/-- A session that evolves leaves the others as they are. -/
theorem forall₂_modify {sessions : List NgSession} {f : NgSession → NgSession} (i : Nat)
    (hf : ∀ s ∈ sessions, Evolves config s (f s)) : List.Forall₂ (Evolves config) sessions (sessions.modify i f) := by
  induction sessions generalizing i with
  | nil => simp
  | cons s rest ih =>
    cases i with
    | zero =>
      rw [List.modify_zero_cons]
      exact .cons (hf s List.mem_cons_self) (List.forall₂_same.mpr fun t _ => .refl t)
    | succ i =>
      rw [List.modify_succ_cons]
      exact .cons (.refl s) (ih i fun t ht => hf t (List.mem_cons_of_mem s ht))

/-- Sessions that evolve at their places, and are not freed. -/
theorem settles_of_mapIdx {f : Nat → NgSession → NgSession} (hctx : ctx.Sound)
    (hf : ∀ i s, s.Sound → Evolves config s (f i s) ∧ (f i s).freed = s.freed) :
    Settles config ctx { ctx with ng_session := ctx.ng_session.mapIdx f } := by
  refine settles_of_evolve (forall₂_mapIdx fun i s hs => (hf i s (hctx s hs)).1) fun t ht => ?_
  obtain ⟨i, hi, rfl⟩ := List.mem_mapIdx.mp ht
  have hs := hctx _ (List.getElem_mem hi)
  exact (hf i _ hs).2.trans hs.not_freed

section loop

variable (a : Arguments)

/-- Choosing the events of the sessions lets each of them evolve. -/
theorem monitor_settled (hctx : ctx.Sound) (p : Pass) : Settled config ctx (ctx.monitor p) := by
  refine .single (settles_of_mapIdx hctx fun i s hs => ?_)
  cases s with
  | icmp s => exact ⟨.refl _, rfl⟩
  | udp s => exact ⟨.refl _, rfl⟩
  | tcp s =>
    have hlive : s.freed = false := hs
    rw [mapTcp]
    split
    · rename_i hsocket
      refine ⟨.tcp_single (.monitor (p.monitors i)) rfl ?_, TcpSession.freed_monitor (p.monitors i)⟩
      rw [TcpSession.step, if_neg (by simp [hlive]), if_pos hsocket]
    · exact ⟨.refl _, rfl⟩

/-- The check lets a session evolve by its own check. -/
theorem checkSession_evolves (sessions : Nat) (c : Clock) {s : NgSession} (hs : s.Sound) :
    Evolves config s (checkSession a sessions c s) := by
  cases s with
  | icmp s =>
    have hsocket : s.socket = true := by
      rw [hs.1, hs.2]
      rfl
    exact .icmp (IcmpSession.check_effects _ hsocket)
  | udp s => exact .udp (UdpSession.check_effects _ hs.1)
  | tcp s =>
    have hlive : s.freed = false := hs
    refine .tcp_single (.check { c with sessions, maxsessions := a.maxsessions }) rfl ?_
    rw [TcpSession.step, if_neg (by simp [hlive])]

/-- The check of all sessions lets each of them evolve and takes out those that are freed. -/
theorem check_settled (hctx : ctx.Sound) (p : Pass) (sessions : Nat) : Settled config ctx (ctx.check a p sessions) := by
  rw [check]
  split
  · refine .single ⟨p.ms, _, forall₂_mapIdx fun i s hs => ?_, rfl⟩
    exact checkSession_evolves a sessions (p.clocks i) (hctx s hs)
  · exact .refl

/-- The events of a socket let its session evolve and free nothing. -/
theorem socketEvent_evolves (ready : Ready) {s : NgSession} (hs : s.Sound) :
    Evolves config s (socketEvent config ready s) ∧ (socketEvent config ready s).freed = s.freed := by
  cases s with
  | icmp s =>
    cases ready with
    | icmp e =>
      rw [socketEvent]
      split
      · rename_i hsocket
        exact ⟨.icmp (IcmpSession.check_icmp_socket_effects e hsocket), IcmpSession.freed_check_icmp_socket e⟩
      · exact ⟨.refl _, rfl⟩
    | udp | tcp => exact ⟨.refl _, rfl⟩
  | udp s =>
    cases ready with
    | udp error input reads =>
      rw [socketEvent]
      split
      · rename_i hsocket
        exact ⟨.udp (UdpSession.readSocket_effects config hsocket error input reads),
          UdpSession.freed_readSocket config error input reads⟩
      · exact ⟨.refl _, rfl⟩
    | icmp | tcp => exact ⟨.refl _, rfl⟩
  | tcp s =>
    cases ready with
    | tcp e =>
      have hlive : s.freed = false := hs
      rw [socketEvent]
      split
      · rename_i hsocket
        refine ⟨.tcp_single (.socket e) rfl ?_, TcpSession.freed_check_tcp_socket config e⟩
        rw [TcpSession.step, if_neg (by simp [hlive]), if_pos hsocket]
      · exact ⟨.refl _, rfl⟩
    | icmp | udp => exact ⟨.refl _, rfl⟩

/-- An event concerns the session it came for. -/
theorem event_settles (hctx : ctx.Sound) (i : Nat) (ready : Ready) :
    Settles config ctx { ctx with ng_session := ctx.ng_session.modify i (socketEvent config ready) } := by
  refine settles_of_evolve (forall₂_modify i fun s hs => (socketEvent_evolves ready (hctx s hs)).1) fun t ht => ?_
  obtain ⟨j, hj, rfl⟩ := List.mem_iff_getElem.mp ht
  rw [List.getElem_modify]
  have hs := hctx _ (List.getElem_mem (by simpa using hj : j < ctx.ng_session.length))
  split
  · exact (socketEvent_evolves ready hs).2.trans hs.not_freed
  · exact hs.not_freed

/-- Every change keeps the thread sound. -/
theorem Sound.changes (hctx : ctx.Sound) (hchanges : Changes config ctx next) : next.Sound :=
  invariant_of_reflTransGen (fun _ _ hctx hchange => hctx.change hchange) hctx hchanges

/-- All events of a pass let their sessions evolve, one after the other. -/
theorem poll_settled (hctx : ctx.Sound) (events : List (Nat × Ready)) :
    Settled config ctx (ctx.poll config events) := by
  induction events generalizing ctx with
  | nil => exact .refl
  | cons event rest ih =>
    have hevent : Settled config ctx _ := .single (event_settles hctx event.1 event.2)
    exact hevent.trans (ih (hctx.changes (changes_of_settled hevent)))

/-- A session that is not allowed any more. -/
theorem disallow_evolves (tun : Tun) {s : NgSession} (hs : s.Sound) : Evolves config s (disallow tun s) := by
  cases s with
  | icmp s => exact .icmp (.single (.stop s))
  | udp s => exact .udp (UdpSession.disallow_effects hs.1)
  | tcp s =>
    have hlive : s.freed = false := hs
    refine .tcp_single (.disallow tun) rfl ?_
    rw [TcpSession.step, if_neg (by simp [hlive])]

/-- A session whose verdict is asked for anew evolves. -/
theorem unblock_evolves (s : NgSession) : Evolves config s (unblock s) := by
  cases s with
  | icmp s => exact .refl _
  | udp s => exact .udp UdpSession.unblock_effects
  | tcp s => exact .refl _

/-- Asking for all verdicts anew lets each session evolve. -/
theorem check_allowed_settles (hctx : ctx.Sound) (still : Nat → Bool) (tun : Tun) :
    Settles config ctx { ctx.check_allowed still tun with last_check := 0 } := by
  refine ⟨0, _, forall₂_mapIdx fun i s hs => ?_, rfl⟩
  split
  · exact unblock_evolves s
  · exact (disallow_evolves tun (hctx s hs)).trans (unblock_evolves _)

end loop

section handle

variable (a : Arguments) (sessions : Nat) (r : Reception)

/-- Changes the first session with a property, which is not freed. -/
theorem modifyFirst_settles {p : NgSession → Bool} {f : NgSession → NgSession} (hctx : ctx.Sound)
    (hf : ∀ s, ctx.ng_session.find? p = some s → Evolves config s (f s) ∧ (f s).freed = s.freed) :
    Settles config ctx { ctx with ng_session := ctx.ng_session.modifyFirst p f } := by
  refine settles_of_evolve (List.forall₂_modifyFirst Evolves.refl fun s hfind => (hf s hfind).1) fun t ht => ?_
  rcases List.mem_modifyFirst ht with ht | ⟨s, hfind, rfl⟩
  · exact (hctx t ht).not_freed
  · exact (hf s hfind).2.trans (hctx s (List.mem_of_find?_eq_some hfind)).not_freed

/-- A message goes to a session there is, or to a new one. -/
theorem handle_icmp_cases (hctx : ctx.Sound) (addresses : Addresses) (plen : BitVec 16) (protocol : UInt8)
    (message : List UInt8) : Settled config ctx (ctx.handle_icmp r addresses plen protocol message) ∨
      (∃ s, ctx.handle_icmp r addresses plen protocol message = ctx.add s) ∧
        Change config ctx (ctx.handle_icmp r addresses plen protocol message) := by
  rw [handle_icmp]
  split
  · exact .inl .refl
  · dsimp only
    split
    · refine .inl (.single (modifyFirst_settles hctx fun s hfind => ?_))
      have hkey := List.find?_some hfind
      cases s with
      | udp s => cases hkey
      | tcp s => cases hkey
      | icmp s =>
        have haddresses : s.addresses = addresses := by
          simp only [isIcmp, Bool.and_eq_true, decide_eq_true_eq] at hkey
          exact hkey.2
        subst haddresses
        have hsound := hctx _ (List.mem_of_find?_eq_some hfind)
        have hsocket : s.socket = true := by
          rw [hsound.1, hsound.2]
          rfl
        exact ⟨.icmp (IcmpSession.forward_effects hsocket r.now r.sendto message plen protocol),
          IcmpSession.freed_forward r.now r.sendto _⟩
    · rename_i hnone
      split
      · have hstart : (IcmpSession.new addresses r.now message).addresses = addresses := rfl
        have hforward := IcmpSession.forward_effects (s := IcmpSession.new addresses r.now message) rfl r.now r.sendto
          message plen protocol
        refine .inr ⟨⟨_, rfl⟩, .addIcmp ctx _ r.now message ?_ ?_ (IcmpSession.freed_forward r.now r.sendto _)⟩
        · have hsame := (IcmpSession.effects_start hforward).1
          rw [hstart] at hsame
          rw [hsame]
          exact eq_false_of_ne_true hnone
        · have hsame := (IcmpSession.effects_start hforward).1
          rw [hstart] at hsame
          rw [hsame]
          exact hforward
      · exact .inl .refl

/-- A message of the app goes to its session, or makes one. -/
theorem handle_icmp_changes (hctx : ctx.Sound) (addresses : Addresses) (plen : BitVec 16) (protocol : UInt8)
    (message : List UInt8) : Changes config ctx (ctx.handle_icmp r addresses plen protocol message) := by
  rcases handle_icmp_cases r hctx addresses plen protocol message with hsettled | ⟨-, hchange⟩
  · exact changes_of_settled hsettled
  · exact .single hchange

/-- A datagram goes to a session there is, or to a new one. -/
theorem handle_udp_cases (hctx : ctx.Sound) {redirect : Option Redirect} {key : SessionKey} {data : List UInt8}
    (hredirect : redirect = none ∨ ctx.ng_session.any (isUdp key) = false)
    (hhandle : ctx.handle_udp r redirect key data = .ok next) : Settled config ctx next ∨
      (∃ u, u.key = key ∧ next = ctx.add (.udp u)) ∧ ctx.ng_session.any (isUdp key) = false ∧
        Change config ctx next := by
  rw [handle_udp] at hhandle
  split at hhandle
  · rename_i s hfind
    obtain ⟨hmem, hkey⟩ := List.mem_and_of_find hfind
    split at hhandle
    · cases hhandle
      exact .inl .refl
    · rename_i hstate
      have hnone : redirect = none := by
        refine hredirect.resolve_right fun hany => ?_
        rw [List.any_eq_false] at hany
        exact hany _ hmem hkey
      have hs : s.Consistent ∧ s.freed = false := hctx _ hmem
      cases hudp : s.handle_udp r redirect data with
      | error f =>
        rw [hudp] at hhandle
        cases hhandle
      | ok u =>
        rw [hudp] at hhandle
        cases hhandle
        refine .inl (.single (modifyFirst_settles hctx fun t ht => ?_))
        rw [hfind] at ht
        cases ht
        have heffects := UdpSession.handle_effects hs.1 (by simpa using hstate) (.inl hnone) hudp
        exact ⟨.udp heffects, UdpSession.freed_handle hudp⟩
  · rename_i hnot
    have hany : ctx.ng_session.any (isUdp key) = false := by
      rw [List.any_eq_false]
      intro t ht hkey
      cases hfind : ctx.ng_session.find? (isUdp key) with
      | none => exact List.find?_eq_none.mp hfind t ht hkey
      | some u =>
        cases u with
        | udp u => exact hnot u hfind
        | icmp u => cases List.find?_some hfind
        | tcp u => cases List.find?_some hfind
    split at hhandle
    · cases hudp : (UdpSession.new key r.now redirect).handle_udp r redirect data with
      | error f =>
        rw [hudp] at hhandle
        cases hhandle
      | ok u =>
        rw [hudp] at hhandle
        cases hhandle
        have heffects := UdpSession.handle_effects (UdpSession.consistent_new key r.now redirect) rfl (.inr rfl) hudp
        have hkey : u.key = key := UdpSession.key_of_effects heffects
        refine .inr ⟨⟨u, hkey, rfl⟩, hany, .addUdp ctx u r.now redirect ?_ ?_ (UdpSession.freed_handle hudp)⟩
        · rw [hkey]
          exact hany
        · rw [hkey]
          exact heffects
    · cases hhandle
      exact .inl .refl

/-- A datagram of the app goes to its session, or makes one. -/
theorem handle_udp_changes (hctx : ctx.Sound) {redirect : Option Redirect} {key : SessionKey} {data : List UInt8}
    (hredirect : redirect = none ∨ ctx.ng_session.any (isUdp key) = false)
    (hhandle : ctx.handle_udp r redirect key data = .ok next) : Changes config ctx next := by
  rcases handle_udp_cases r hctx hredirect hhandle with hsettled | ⟨-, -, hchange⟩
  · exact changes_of_settled hsettled
  · exact .single hchange

/-- A packet of TCP that is handled, with its record. -/
theorem handle_tcp_changes {key : SessionKey} {p : TcpPacket} {options : OptionBytes} {tcpoptlen : Nat}
    (hhandle : { ctx with received := ctx.received ++ [TcpArrival.mk key p options tcpoptlen] }.handle_tcp r key p
      options tcpoptlen = .ok next) : Changes config ctx next := by
  rw [handle_tcp] at hhandle
  split at hhandle
  · cases hhandle
    exact .single (.packet ctx ⟨key, p, options, tcpoptlen⟩ r.tun r.now)
  · rename_i hany
    have hnone : ctx.ng_session.any (isTcp key) = false := eq_false_of_ne_true hany
    have hrecord : Changes config ctx
      { ctx with received := ctx.received ++ [TcpArrival.mk key p options tcpoptlen] } :=
      .single (.record ctx ⟨key, p, options, tcpoptlen⟩ (.inr hnone))
    split at hhandle
    · cases hhandle
      exact hrecord
    · split at hhandle
      · rename_i hsyn
        split at hhandle
        · cases hhandle
        · rename_i hloop
          split at hhandle
          · cases hhandle
            exact .single (.addTcp ctx ⟨key, p, options, tcpoptlen⟩ _ r.now r.rand r.buffer hsyn
              ⟨r.passes, hloop⟩ hnone)
          · cases hhandle
            exact hrecord
      · rename_i hsyn
        cases hhandle
        exact .single (.unknown ctx ⟨key, p, options, tcpoptlen⟩ (eq_false_of_ne_true hsyn) hnone)

/-- A datagram whose session is not found has none in the list. -/
theorem not_any_of_not_has {key : SessionKey} (hhas : ctx.has_udp_session a key ≠ true) :
    ctx.ng_session.any (isUdp key) = false := by
  rw [has_udp_session, ne_eq, Bool.or_eq_true, not_or] at hhas
  exact eq_false_of_ne_true hhas.2

/-- A packet is dropped, is handled, or is not allowed. -/
theorem handle_ip_cases {p : IpPacket} (hhandle : ctx.handle_ip a sessions r p = .ok next) :
    (ctx.record p).mayOpen a p = true ∧ a.maxsessions ≤ sessions ∧ next = ctx.record p ∨
      (∃ redirect, (a.maxsessions ≤ sessions → (ctx.record p).mayOpen a p = false) ∧
        (ctx.record p).allowed a r p = some redirect ∧ (ctx.record p).dispatch r redirect p = .ok next) ∨
      (ctx.record p).allowed a r p = none ∧
        (∀ source dest data, p.payload = .udp source dest data →
          next = (ctx.record p).block_udp r ⟨p.addresses, source, dest⟩) ∧
        ((∀ source dest data, p.payload ≠ .udp source dest data) → next = ctx.record p) := by
  rw [handle_ip] at hhandle
  by_cases hdropped : a.maxsessions ≤ sessions ∧ (ctx.record p).mayOpen a p = true
  · rw [if_pos hdropped] at hhandle
    cases hhandle
    exact .inl ⟨hdropped.2, hdropped.1, rfl⟩
  · rw [if_neg hdropped] at hhandle
    cases hallowed : (ctx.record p).allowed a r p with
    | some redirect =>
      rw [hallowed] at hhandle
      exact .inr (.inl ⟨redirect, fun hfull => eq_false_of_ne_true fun hopen => hdropped ⟨hfull, hopen⟩, rfl, hhandle⟩)
    | none =>
      rw [hallowed] at hhandle
      refine .inr (.inr ⟨rfl, ?_, ?_⟩)
      · intro source dest data hudp
        rw [hudp] at hhandle
        cases hhandle
        rfl
      · intro hnot
        cases hpayload : p.payload with
        | udp source dest data => exact absurd hpayload (hnot source dest data)
        | icmp | tcp | other =>
          rw [hpayload] at hhandle
          cases hhandle
          rfl

/-- A packet of the app is a series of changes, whatever its protocol is. -/
theorem handle_ip_changes (hctx : ctx.Sound) {p : IpPacket} (hhandle : ctx.handle_ip a sessions r p = .ok next) :
    Changes config ctx next := by
  obtain ⟨addresses, payload⟩ := p
  obtain ⟨hopen, -, hnext⟩ | ⟨redirect, -, hallowed, hdispatch⟩ | ⟨hallowed, hblocked, hnext⟩ :=
    handle_ip_cases a sessions r hhandle
  · rw [hnext]
    cases payload with
    | tcp source dest segment options tcpoptlen =>
      -- a SYN that would open a session belongs to none
      exact .single (.record ctx ⟨_, segment, options, tcpoptlen⟩ (.inl hopen))
    | icmp | udp | other => exact .refl
  · cases payload with
    | icmp plen protocol message =>
      cases hdispatch
      exact handle_icmp_changes r hctx addresses plen protocol message
    | udp source dest data =>
      refine handle_udp_changes r hctx ?_ hdispatch
      by_cases hhas : ctx.has_udp_session a ⟨addresses, source, dest⟩ = true
      · exact .inl (Option.some.inj ((if_pos hhas).symm.trans hallowed)).symm
      · exact .inr (not_any_of_not_has a hhas)
    | tcp source dest segment options tcpoptlen => exact handle_tcp_changes r hdispatch
    | other =>
      cases hdispatch
      exact .refl
  · cases payload with
    | udp source dest data =>
      rw [hblocked source dest data rfl]
      have hhas : ctx.has_udp_session a ⟨addresses, source, dest⟩ ≠ true := by
        intro hhas
        have hsome : (if ctx.has_udp_session a ⟨addresses, source, dest⟩ = true then some none else r.verdict) = none :=
          hallowed
        rw [if_pos hhas] at hsome
        cases hsome
      exact .single (.block ctx _ r.now _ _ _ (not_any_of_not_has a hhas))
    | tcp source dest segment options tcpoptlen =>
      rw [hnext (by simp)]
      have hsyn : segment.syn = true := by
        by_contra hnot
        have hsome : (if segment.syn = false ∨ r.uid = 0 ∧ dest = 53 then some none else r.verdict) = none := hallowed
        rw [if_pos (.inl (eq_false_of_ne_true hnot))] at hsome
        cases hsome
      exact .single (.record ctx ⟨_, segment, options, tcpoptlen⟩ (.inl hsyn))
    | icmp | other =>
      rw [hnext (by simp)]
      exact .refl

/-- So are the packets that a pass reads. -/
theorem read_changes (hctx : ctx.Sound) {packets : List (Reception × IpPacket)}
    (hread : ctx.read a sessions packets = .ok next) : Changes config ctx next := by
  rw [read] at hread
  generalize packets.take TUN_YIELD = taken at hread
  induction taken generalizing ctx with
  | nil =>
    cases hread
    exact .refl
  | cons packet rest ih =>
    obtain ⟨middle, hpacket, hrest⟩ := run_cons_ok.mp hread
    have hfirst : Changes config ctx middle := handle_ip_changes a sessions packet.1 hctx hpacket
    exact hfirst.trans (ih (hctx.changes hfirst) hrest)

end handle

variable {a : Arguments}

/-- What a pass does before it reads packets. -/
theorem before_settled (hctx : ctx.Sound) (p : Pass) (sessions : Nat) :
    Settled a.config ctx (((ctx.monitor p).check a p sessions).poll a.config p.before) := by
  have hmonitor : Settled a.config ctx (ctx.monitor p) := monitor_settled hctx p
  have hcheck := hmonitor.trans (check_settled a (hctx.changes (changes_of_settled hmonitor)) p sessions)
  exact hcheck.trans (poll_settled (hctx.changes (changes_of_settled hcheck)) p.before)

/-- So is a whole pass of the thread. -/
theorem pass_changes (hctx : ctx.Sound) {p : Pass} (hpass : ctx.pass a p = .ok next) : Changes a.config ctx next := by
  rw [pass] at hpass
  have hbefore := changes_of_settled (before_settled (a := a) hctx p (ctx.ng_session.countP NgSession.active))
  split at hpass
  · rename_i middle hread
    cases hpass
    have hpackets := hbefore.trans (read_changes a _ (hctx.changes hbefore) hread)
    exact hpackets.trans (changes_of_settled (poll_settled (hctx.changes hpackets) p.after))
  · cases hpass

/-- Every action of the thread is a sequence of single effects. -/
theorem step_changes (hctx : ctx.Sound) {action : Action} (hstep : step a ctx action = .ok next) :
    Changes a.config ctx next := by
  cases action with
  | start still tun =>
    cases hstep
    exact changes_of_settled (.single (check_allowed_settles hctx still tun))
  | pass p => exact pass_changes hctx hstep
  | clear =>
    cases hstep
    exact .single (.clear ctx)

/-- What the single effects preserve, every run of the thread preserves. -/
theorem run_changes {I : Context → Prop} {actions : List Action} {final : Context}
    (hchange : ∀ ctx next, ctx.Sound → I ctx → Change a.config ctx next → I next) (hctx : ctx.Sound) (hinit : I ctx)
    (hrun : run (step a) ctx actions = .ok final) : final.Sound ∧ I final := by
  refine run_invariant (I := fun ctx => ctx.Sound ∧ I ctx) ?_ ⟨hctx, hinit⟩ hrun
  intro ctx action next hinvariant hstep
  refine invariant_of_reflTransGen (I := fun ctx => ctx.Sound ∧ I ctx) ?_ hinvariant (step_changes hinvariant.1 hstep)
  intro ctx next hinvariant hsingle
  exact ⟨hinvariant.1.change hsingle, hchange ctx next hinvariant.1 hinvariant.2 hsingle⟩

/-- What holds of a session when it is made, and whatever happens to it, holds of every
session that a run leaves in the list or has freed, and of every cleared one before that. -/
theorem sessions_of_run {I : NgSession → Prop} {actions : List Action} {final : Context}
    (hicmp : ∀ addresses now message, I (.icmp (IcmpSession.new addresses now message)))
    (hudp : ∀ key now redirect, I (.udp (UdpSession.new key now redirect)))
    (hblocked : ∀ key now mss sent received, I (.udp (UdpSession.blocked key now mss sent received)))
    (htcp : ∀ key p options now rand buffer, I (.tcp (TcpSession.new key p options now rand buffer)))
    (hevolves : ∀ s t, I s → Evolves a.config s t → I t)
    (hpacket : ∀ s tun now p, I (.tcp s) → I (.tcp (s.handle_tcp tun now p)))
    (hrun : run (step a) initial actions = .ok final) :
    (∀ s ∈ final.ng_session, I s) ∧ (∀ s ∈ final.deleted, s.freed = true ∧ I s) ∧
      ∀ s ∈ final.cleared, ∃ t, t.freed = false ∧ I t ∧ s = t.clear := by
  refine (run_changes (I := fun ctx => (∀ s ∈ ctx.ng_session, I s) ∧ (∀ s ∈ ctx.deleted, s.freed = true ∧ I s) ∧
      ∀ s ∈ ctx.cleared, ∃ t, t.freed = false ∧ I t ∧ s = t.clear) ?_ (fun _ hs => absurd hs List.not_mem_nil)
    ⟨fun _ hs => absurd hs List.not_mem_nil, fun _ hs => absurd hs List.not_mem_nil,
      fun _ hs => absurd hs List.not_mem_nil⟩ hrun).2
  intro ctx next hctx hinvariant hchange
  obtain ⟨hlist, hdeleted, hcleared⟩ := hinvariant
  cases hchange with
  | evolve last_check sessions hsessions =>
    have hall : ∀ t ∈ sessions, I t := by
      intro t ht
      obtain ⟨s, hs, hst⟩ := exists_of_evolve hsessions ht
      exact hevolves s t (hlist s hs) hst
    refine ⟨fun t ht => hall t (List.mem_filter.mp ht).1, List.forall_mem_append.mpr ⟨hdeleted, fun t ht => ?_⟩,
      hcleared⟩
    exact ⟨(List.mem_filter.mp ht).2, hall t (List.mem_filter.mp ht).1⟩
  | clear =>
    refine ⟨fun _ hs => absurd hs List.not_mem_nil, hdeleted, List.forall_mem_append.mpr ⟨hcleared, fun s hs => ?_⟩⟩
    obtain ⟨t, ht, rfl⟩ := List.mem_map.mp hs
    exact ⟨t, (hctx t ht).not_freed, hlist t ht, rfl⟩
  | addIcmp s now message hnone hnew hfreed =>
    exact ⟨List.forall_mem_cons.mpr ⟨hevolves _ _ (hicmp s.addresses now message) (.icmp hnew), hlist⟩, hdeleted,
      hcleared⟩
  | addUdp s now redirect hnone hnew hfreed =>
    exact ⟨List.forall_mem_cons.mpr ⟨hevolves _ _ (hudp s.key now redirect) (.udp hnew), hlist⟩, hdeleted, hcleared⟩
  | block key now mss sent received =>
    exact ⟨List.forall_mem_cons.mpr ⟨hblocked key now mss sent received, hlist⟩, hdeleted, hcleared⟩
  | record | unknown => exact ⟨hlist, hdeleted, hcleared⟩
  | packet arrival tun now =>
    refine ⟨fun t ht => ?_, hdeleted, hcleared⟩
    rcases List.mem_modifyFirst ht with ht | ⟨s, hfind, rfl⟩
    · exact hlist t ht
    · have hs := hlist s (List.mem_of_find?_eq_some hfind)
      cases s with
      | icmp s => exact hs
      | udp s => exact hs
      | tcp s => exact hpacket s tun now arrival.packet hs
  | addTcp arrival options now rand buffer =>
    exact ⟨List.forall_mem_cons.mpr ⟨htcp arrival.key arrival.packet options now rand buffer, hlist⟩, hdeleted,
      hcleared⟩

/-- The thread begins without sessions. -/
theorem sound_initial : initial.Sound := fun _ hs => absurd hs List.not_mem_nil

end Context

end inspector.netguard.jni
