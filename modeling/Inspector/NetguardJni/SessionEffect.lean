import Inspector.NetguardJni.IcmpEffect
import Inspector.NetguardJni.TcpFreed
import Inspector.NetguardJni.UdpEffect

open bounded machine Relation

namespace inspector.netguard.jni

/-- The packets that a run of a session handles. -/
def handled (actions : List TcpSession.Action) : List TcpPacket :=
  actions.filterMap fun
    | .packet _ _ p => some p
    | _ => none

/-- The options that the loop of `handle_tcp` reads out of a packet, over the defaults. -/
def TcpArrival.Offers (arrival : TcpArrival) (options : TcpOptions) : Prop :=
  ∃ passes, TcpOptions.loop arrival.options passes arrival.tcpoptlen 0
    { mss := Context.get_default_mss arrival.key.addresses, ws := 0 } = some options

namespace NgSession

/-- What happens to a session besides the packets of its connection. -/
inductive Evolves (config : NativeConfig) : NgSession → NgSession → Prop where
  | icmp {s t : IcmpSession} (heffects : IcmpEffects s t) : Evolves config (.icmp s) (.icmp t)
  | udp {s t : UdpSession} (heffects : UdpEffects s t) : Evolves config (.udp s) (.udp t)
  | tcp {s t : TcpSession} (actions : List TcpSession.Action) (hhandled : handled actions = [])
      (hrun : run (TcpSession.step config) s actions = .ok t) : Evolves config (.tcp s) (.tcp t)

/-- A session of the list. -/
def Sound : NgSession → Prop
  | .icmp s => s.Consistent ∧ s.freed = false
  | .udp s => s.Consistent ∧ s.freed = false
  | .tcp s => s.freed = false

variable {config : NativeConfig} {s t u : NgSession}

theorem Evolves.refl (s : NgSession) : Evolves config s s := by
  cases s with
  | icmp s => exact .icmp .refl
  | udp s => exact .udp .refl
  | tcp s => exact .tcp [] rfl rfl

theorem Evolves.trans (hst : Evolves config s t) (htu : Evolves config t u) : Evolves config s u := by
  cases hst with
  | icmp hst =>
    cases htu with
    | icmp htu => exact .icmp (hst.trans htu)
  | udp hst =>
    cases htu with
    | udp htu => exact .udp (hst.trans htu)
  | tcp first hfirst hst =>
    cases htu with
    | tcp second hsecond htu =>
      refine .tcp (first ++ second) ?_ ((run_append hst).trans htu)
      rw [handled, List.filterMap_append, ← handled, ← handled, hfirst, hsecond, List.append_nil]

theorem Sound.not_freed (hs : s.Sound) : s.freed = false := by
  cases s with
  | icmp s => exact hs.2
  | udp s => exact hs.2
  | tcp s => exact hs

theorem Evolves.tcp_single {s t : TcpSession} (a : TcpSession.Action) (ha : handled [a] = [])
    (hstep : TcpSession.step config s a = .ok t) : Evolves config (.tcp s) (.tcp t) :=
  .tcp [a] ha ((run_singleton _ _ _).trans hstep)

/-- A session that evolves and is not freed stays in order. -/
theorem Sound.evolves (hs : s.Sound) (hst : Evolves config s t) (hfreed : t.freed = false) : t.Sound := by
  cases hst with
  | icmp heffects => exact ⟨hs.1.effects heffects, hfreed⟩
  | udp heffects => exact ⟨hs.1.effects heffects, hfreed⟩
  | tcp => exact hfreed

end NgSession

namespace Context

open NgSession

/-- The single effects of the thread on the list. -/
inductive Change (config : NativeConfig) : Context → Context → Prop where
  | evolve (ctx : Context) (last_check : Int) (sessions : List NgSession)
      (hsessions : List.Forall₂ (Evolves config) ctx.ng_session sessions) :
      Change config ctx ({ ctx with last_check }.sweep sessions)
  | clear (ctx : Context) : Change config ctx ctx.clear
  | addIcmp (ctx : Context) (s : IcmpSession) (now : Int) (message : List UInt8)
      (hnone : ctx.ng_session.any (isIcmp s.addresses) = false)
      (hnew : IcmpEffects (IcmpSession.new s.addresses now message) s) (hfreed : s.freed = false) :
      Change config ctx (ctx.add (.icmp s))
  | addUdp (ctx : Context) (s : UdpSession) (now : Int) (redirect : Option Redirect)
      (hnone : ctx.ng_session.any (isUdp s.key) = false) (hnew : UdpEffects (UdpSession.new s.key now redirect) s)
      (hfreed : s.freed = false) : Change config ctx (ctx.add (.udp s))
  | block (ctx : Context) (key : SessionKey) (now : Int) (mss : BitVec 16) (sent received : BitVec 64)
      (hnone : ctx.ng_session.any (isUdp key) = false) :
      Change config ctx (ctx.add (.udp (UdpSession.blocked key now mss sent received)))
  | record (ctx : Context) (arrival : TcpArrival)
      (hunhandled : arrival.packet.syn = true ∨ ctx.ng_session.any (isTcp arrival.key) = false) :
      Change config ctx { ctx with received := ctx.received ++ [arrival] }
  | packet (ctx : Context) (arrival : TcpArrival) (tun : Tun) (now : Int) :
      Change config ctx { ctx with
        ng_session :=
          ctx.ng_session.modifyFirst (isTcp arrival.key) (mapTcp (TcpSession.handle_tcp tun now arrival.packet))
        received := ctx.received ++ [arrival] }
  | addTcp (ctx : Context) (arrival : TcpArrival) (options : TcpOptions) (now : Int) (rand : BitVec 32)
      (buffer : SendBuffer) (hsyn : arrival.packet.syn = true) (hoptions : arrival.Offers options)
      (hnone : ctx.ng_session.any (isTcp arrival.key) = false) :
      Change config ctx { ctx with
        ng_session := .tcp (TcpSession.new arrival.key arrival.packet options now rand buffer) :: ctx.ng_session
        received := ctx.received ++ [arrival] }
  | unknown (ctx : Context) (arrival : TcpArrival) (hsyn : arrival.packet.syn = false)
      (hnone : ctx.ng_session.any (isTcp arrival.key) = false) :
      Change config ctx { ctx with
        received := ctx.received ++ [arrival]
        unknown := ctx.unknown ++ [(arrival.key, unknownReset arrival.packet)] }

/-- The sessions evolve at their places, and those that are freed leave the list. -/
def Settles (config : NativeConfig) (ctx next : Context) : Prop :=
  ∃ last_check sessions, List.Forall₂ (Evolves config) ctx.ng_session sessions ∧
    next = { ctx with last_check }.sweep sessions

abbrev Settled (config : NativeConfig) : Context → Context → Prop := ReflTransGen (Settles config)

abbrev Changes (config : NativeConfig) : Context → Context → Prop := ReflTransGen (Change config)

/-- The sessions of the list are in order. -/
def Sound (ctx : Context) : Prop := ∀ s ∈ ctx.ng_session, s.Sound

variable {config : NativeConfig} {ctx next : Context}

theorem Sound.add {s : NgSession} (hctx : ctx.Sound) (hs : s.Sound) : (ctx.add s).Sound :=
  List.forall_mem_cons.mpr ⟨hs, hctx⟩

/-- A session that evolves was there before. -/
theorem exists_of_evolve {sessions : List NgSession} {t : NgSession}
    (hsessions : List.Forall₂ (Evolves config) ctx.ng_session sessions) (ht : t ∈ sessions) :
    ∃ s ∈ ctx.ng_session, Evolves config s t := by
  generalize ctx.ng_session = old at hsessions ⊢
  induction hsessions with
  | nil => cases ht
  | cons hevolves _ ih =>
    cases ht with
    | head => exact ⟨_, List.mem_cons_self, hevolves⟩
    | tail _ ht =>
      obtain ⟨s, hs, hst⟩ := ih ht
      exact ⟨s, List.mem_cons_of_mem _ hs, hst⟩

theorem Sound.change (hctx : ctx.Sound) (hchange : Change config ctx next) : next.Sound := by
  cases hchange with
  | evolve last_check sessions hsessions =>
    intro t ht
    obtain ⟨ht, hfreed⟩ := List.mem_filter.mp ht
    obtain ⟨s, hs, hst⟩ := exists_of_evolve hsessions ht
    exact (hctx s hs).evolves hst (by simpa using hfreed)
  | clear => exact fun s hs => absurd hs (List.not_mem_nil)
  | addIcmp s now message hnone hnew hfreed =>
    exact hctx.add ⟨(IcmpSession.consistent_new s.addresses now message).effects hnew, hfreed⟩
  | addUdp s now redirect hnone hnew hfreed =>
    exact hctx.add ⟨(UdpSession.consistent_new s.key now redirect).effects hnew, hfreed⟩
  | block key now mss sent received => exact hctx.add ⟨UdpSession.consistent_blocked key now mss sent received, rfl⟩
  | record | unknown => exact hctx
  | packet arrival tun now =>
    intro t ht
    rcases List.mem_modifyFirst ht with ht | ⟨s, hfind, rfl⟩
    · exact hctx t ht
    · obtain ⟨hs, hkey⟩ := List.mem_and_of_find hfind
      cases s with
      | icmp s => cases hkey
      | udp s => cases hkey
      | tcp s => exact (TcpSession.freed_handle_tcp now arrival.packet).trans (hctx _ hs)
  | addTcp => exact List.forall_mem_cons.mpr ⟨rfl, hctx⟩

theorem changes_of_settled (hsettled : Settled config ctx next) : Changes config ctx next := by
  refine ReflTransGen.mono (fun ctx next hsettles => ?_) ctx next hsettled
  obtain ⟨last_check, sessions, hsessions, rfl⟩ := hsettles
  exact .evolve ctx last_check sessions hsessions

/-- Sessions that evolve without being freed stay in the list. -/
theorem settles_of_evolve {sessions : List NgSession}
    (hsessions : List.Forall₂ (Evolves config) ctx.ng_session sessions)
    (hfreed : ∀ s ∈ sessions, s.freed = false) : Settles config ctx { ctx with ng_session := sessions } := by
  refine ⟨ctx.last_check, sessions, hsessions, ?_⟩
  have hkept : (sessions.filter fun s => !s.freed) = sessions := by
    rw [List.filter_eq_self]
    intro s hs
    rw [hfreed s hs]
    rfl
  have hnone : sessions.filter NgSession.freed = [] := by
    rw [List.filter_eq_nil_iff]
    intro s hs
    rw [hfreed s hs]
    exact Bool.false_ne_true
  rw [sweep, hkept, hnone, List.append_nil]

end Context

end inspector.netguard.jni
