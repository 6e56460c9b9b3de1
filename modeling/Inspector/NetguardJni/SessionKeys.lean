import Inspector.NetguardJni.SessionStep
import Inspector.NetguardJni.UdpAccounts

open machine Relation

namespace inspector.netguard.jni

namespace NgSession

/-- What the searches compare. A session that is stopped is not found. -/
def tcpKey : NgSession → Option SessionKey
  | .tcp s => some s.key
  | _ => none

def udpKey : NgSession → Option SessionKey
  | .udp s => some s.key
  | _ => none

def liveAddresses : NgSession → Option Addresses
  | .icmp s => if s.stop then none else some s.addresses
  | _ => none

theorem isTcp_iff (key : SessionKey) (s : NgSession) : s.isTcp key = true ↔ s.tcpKey = some key := by
  cases s <;> simp [isTcp, tcpKey]

theorem isUdp_iff (key : SessionKey) (s : NgSession) : s.isUdp key = true ↔ s.udpKey = some key := by
  cases s <;> simp [isUdp, udpKey]

theorem isIcmp_iff (addresses : Addresses) (s : NgSession) :
    s.isIcmp addresses = true ↔ s.liveAddresses = some addresses := by
  cases s with
  | icmp s => cases hstop : s.stop <;> simp [isIcmp, liveAddresses, hstop]
  | udp | tcp => simp [isIcmp, liveAddresses]

/-- A key that a search does not find is new. -/
theorem notMem_keys {κ : Type} {p : NgSession → Bool} {g : NgSession → Option κ} {k : κ} {sessions : List NgSession}
    (hp : ∀ s, p s = true ↔ g s = some k) (hnone : sessions.any p = false) : k ∉ sessions.filterMap g := by
  intro hmem
  obtain ⟨s, hs, hkey⟩ := List.mem_filterMap.mp hmem
  rw [List.any_eq_false] at hnone
  exact hnone s hs ((hp s).mpr hkey)

end NgSession

namespace TcpSession

variable {config : NativeConfig} {s t : TcpSession}

/-- Whose session it is, stays. -/
theorem key_of_run {actions : List TcpSession.Action} (hs : s.Consistent) (hrun : run (step config) s actions = .ok t) :
    t.Consistent ∧ t.key = s.key := by
  refine run_any_effects (I := fun t => t.key = s.key) ?_ hs rfl hrun
  exact fun t u _ hkey heffect => (effect_start heffect).2.2.trans hkey

end TcpSession

namespace Context

open NgSession

/-- The TCP sessions of a list can go on. -/
def TcpConsistent : NgSession → Prop
  | .tcp s => s.Consistent
  | _ => True

/-- The sessions of the list are found by different keys. -/
structure Distinct (ctx : Context) : Prop where
  tcp : (ctx.ng_session.filterMap tcpKey).Nodup
  udp : (ctx.ng_session.filterMap udpKey).Nodup
  icmp : (ctx.ng_session.filterMap liveAddresses).Nodup
  consistent : ∀ s ∈ ctx.ng_session, TcpConsistent s

variable {config : NativeConfig} {ctx next : Context}

/-- A session keeps its key, or is stopped. -/
theorem fades_of_evolves {s t : NgSession} (hs : TcpConsistent s) (hst : Evolves config s t) :
    List.Fades tcpKey s t ∧ List.Fades udpKey s t ∧ List.Fades liveAddresses s t ∧ TcpConsistent t := by
  cases hst with
  | @icmp s t heffects =>
    refine ⟨.inl rfl, .inl rfl, ?_, trivial⟩
    obtain ⟨haddresses, -, hstop⟩ := IcmpSession.effects_start heffects
    cases hstopped : t.stop with
    | true => exact .inr (by rw [liveAddresses, hstopped]; rfl)
    | false =>
      have hlive : s.stop = false := by
        by_contra hnot
        rw [hstop (eq_true_of_ne_false hnot)] at hstopped
        cases hstopped
      exact .inl (by rw [liveAddresses, liveAddresses, hstopped, hlive, haddresses])
  | @udp s t heffects =>
    refine ⟨.inl rfl, .inl ?_, .inl rfl, trivial⟩
    rw [udpKey, udpKey, UdpSession.key_of_effects heffects]
  | @tcp s t actions hhandled hrun =>
    obtain ⟨hconsistent, hkey⟩ := TcpSession.key_of_run hs hrun
    refine ⟨.inl ?_, .inl rfl, .inl rfl, hconsistent⟩
    rw [tcpKey, tcpKey, hkey]

theorem forall₂_imp_mem {R S : NgSession → NgSession → Prop} {l l' : List NgSession} (hforall : List.Forall₂ R l l')
    (himp : ∀ s ∈ l, ∀ t, R s t → S s t) : List.Forall₂ S l l' := by
  induction hforall with
  | nil => exact .nil
  | @cons s t rest rest' hst _ ih =>
    exact .cons (himp s List.mem_cons_self t hst) (ih fun u hu => himp u (List.mem_cons_of_mem s hu))

/-- The keys stay different when the sessions keep theirs or lose them. -/
theorem Distinct.fade {sessions : List NgSession} (hctx : ctx.Distinct)
    (hsessions : List.Forall₂
      (fun s t => List.Fades tcpKey s t ∧ List.Fades udpKey s t ∧ List.Fades liveAddresses s t ∧ TcpConsistent t)
      ctx.ng_session sessions) (received : List TcpArrival) :
    { ctx with ng_session := sessions, received }.Distinct where
  tcp := hctx.tcp.sublist (List.sublist_of_fades (hsessions.imp fun _ _ h => h.1))
  udp := hctx.udp.sublist (List.sublist_of_fades (hsessions.imp fun _ _ h => h.2.1))
  icmp := hctx.icmp.sublist (List.sublist_of_fades (hsessions.imp fun _ _ h => h.2.2.1))
  consistent := by
    intro t ht
    generalize ctx.ng_session = old at hsessions
    induction hsessions with
    | nil => cases ht
    | cons hst _ ih =>
      cases ht with
      | head => exact hst.2.2.2
      | tail _ ht => exact ih ht

/-- A session is added whose keys are new. -/
theorem Distinct.add {s : NgSession} (hctx : ctx.Distinct)
    (htcp : ∀ k, s.tcpKey = some k → k ∉ ctx.ng_session.filterMap tcpKey)
    (hudp : ∀ k, s.udpKey = some k → k ∉ ctx.ng_session.filterMap udpKey)
    (hicmp : ∀ k, s.liveAddresses = some k → k ∉ ctx.ng_session.filterMap liveAddresses) (hs : TcpConsistent s) :
    (ctx.add s).Distinct := by
  have hcons : ∀ {κ : Type} (g : NgSession → Option κ), (ctx.ng_session.filterMap g).Nodup →
      (∀ k, g s = some k → k ∉ ctx.ng_session.filterMap g) → ((s :: ctx.ng_session).filterMap g).Nodup := by
    intro κ g hold hnew
    rw [List.filterMap_cons]
    cases hkey : g s with
    | none => exact hold
    | some k => exact List.nodup_cons.mpr ⟨hnew k hkey, hold⟩
  exact ⟨hcons tcpKey hctx.tcp htcp, hcons udpKey hctx.udp hudp, hcons liveAddresses hctx.icmp hicmp,
    List.forall_mem_cons.mpr ⟨hs, hctx.consistent⟩⟩

theorem Distinct.change (hctx : ctx.Distinct) (hchange : Change config ctx next) : next.Distinct := by
  cases hchange with
  | evolve last_check sessions hsessions =>
    have hfades := forall₂_imp_mem hsessions fun s hs t hst => fades_of_evolves (hctx.consistent s hs) hst
    have hfade := hctx.fade hfades ctx.received
    have hfilter : ∀ {κ : Type} (g : NgSession → Option κ), (sessions.filterMap g).Nodup →
        ((sessions.filter fun s => !s.freed).filterMap g).Nodup :=
      fun g hnodup => hnodup.sublist (List.filter_sublist.filterMap g)
    exact ⟨hfilter tcpKey hfade.tcp, hfilter udpKey hfade.udp, hfilter liveAddresses hfade.icmp,
      fun t ht => hfade.consistent t (List.mem_filter.mp ht).1⟩
  | clear => exact ⟨.nil, .nil, .nil, fun _ hs => absurd hs List.not_mem_nil⟩
  | addIcmp s now message hnone hnew hfreed =>
    refine hctx.add (by simp [tcpKey]) (by simp [udpKey]) (fun k hk => ?_) trivial
    have haddresses : k = s.addresses := by
      rw [liveAddresses] at hk
      split at hk
      · cases hk
      · exact (Option.some.inj hk).symm
    rw [haddresses]
    exact notMem_keys (isIcmp_iff s.addresses) hnone
  | addUdp s now redirect hnone hnew hfreed =>
    refine hctx.add (by simp [tcpKey]) (fun k hk => ?_) (by simp [liveAddresses]) trivial
    cases hk
    exact notMem_keys (isUdp_iff s.key) hnone
  | block key now mss sent received hnone =>
    refine hctx.add (by simp [tcpKey]) (fun k hk => ?_) (by simp [liveAddresses]) trivial
    cases hk
    exact notMem_keys (isUdp_iff key) hnone
  | record | unknown => exact ⟨hctx.tcp, hctx.udp, hctx.icmp, hctx.consistent⟩
  | packet arrival tun now =>
    refine hctx.fade ?_ _
    have hsame : List.Forall₂
        (fun s t => s ∈ ctx.ng_session → t = s ∨ t = mapTcp (TcpSession.handle_tcp tun now arrival.packet) s)
        ctx.ng_session
        (ctx.ng_session.modifyFirst (isTcp arrival.key) (mapTcp (TcpSession.handle_tcp tun now arrival.packet))) :=
      List.forall₂_modifyFirst (fun _ _ => .inl rfl) fun _ _ _ => .inr rfl
    refine forall₂_imp_mem hsame fun s hs t hst => ?_
    have hconsistent := hctx.consistent s hs
    rcases hst hs with rfl | rfl
    · exact ⟨.inl rfl, .inl rfl, .inl rfl, hconsistent⟩
    · cases s with
      | icmp s => exact ⟨.inl rfl, .inl rfl, .inl rfl, trivial⟩
      | udp s => exact ⟨.inl rfl, .inl rfl, .inl rfl, trivial⟩
      | tcp s =>
        have heffects : TcpEffects (fun _ _ _ => True) s (s.handle_tcp tun now arrival.packet) :=
          TcpSession.handle_effects hconsistent trivial
        obtain ⟨hafter, hkey⟩ :
            (s.handle_tcp tun now arrival.packet).Consistent ∧ (s.handle_tcp tun now arrival.packet).key = s.key :=
          invariant_of_reflTransGen (I := fun t => t.Consistent ∧ t.key = s.key)
            (fun _ _ ht heffect => ⟨ht.1.effect heffect, (TcpSession.effect_start heffect).2.2.trans ht.2⟩)
            ⟨hconsistent, rfl⟩ heffects
        refine ⟨.inl ?_, .inl rfl, .inl rfl, hafter⟩
        rw [mapTcp, tcpKey, tcpKey, hkey]
  | addTcp arrival options now rand buffer hsyn hoptions hnone =>
    have hadd := hctx.add (s := .tcp (TcpSession.new arrival.key arrival.packet options now rand buffer))
      (fun k hk => ?_)
      (by simp [udpKey]) (by simp [liveAddresses])
      (TcpSession.consistent_new arrival.key arrival.packet options now rand buffer)
    · exact ⟨hadd.tcp, hadd.udp, hadd.icmp, hadd.consistent⟩
    · cases hk
      exact notMem_keys (isTcp_iff arrival.key) hnone

theorem distinct_initial : initial.Distinct := ⟨.nil, .nil, .nil, fun _ hs => absurd hs List.not_mem_nil⟩

/-- In every run of the thread, no two sessions of TCP and no two of UDP have one version,
addresses and ports, and no two sessions of ICMP that are not stopped have one pair of
addresses. -/
theorem keys_nodup_of_run {a : Arguments} {actions : List Action} {final : Context}
    (hrun : run (step a) initial actions = .ok final) :
    (final.ng_session.filterMap tcpKey).Nodup ∧ (final.ng_session.filterMap udpKey).Nodup ∧
      (final.ng_session.filterMap liveAddresses).Nodup := by
  obtain ⟨-, hdistinct⟩ := run_changes (fun _ _ _ hctx hchange => Distinct.change hctx hchange) sound_initial
    distinct_initial hrun
  exact ⟨hdistinct.tcp, hdistinct.udp, hdistinct.icmp⟩

/-- An echo request, a query and a SYN, each of which comes twice. -/
def firstPackets : List (Reception × IpPacket) := [
  (plainReception, ⟨queryKey.addresses, .icmp 0 1 [8, 0, 0, 0, 1, 2, 0, 1]⟩),
  (plainReception, ⟨queryKey.addresses, .udp queryKey.source queryKey.dest [1, 2, 3]⟩),
  (plainReception, ⟨queryKey.addresses, .tcp queryKey.source queryKey.dest TcpSession.synPacket (fun _ => 0) 0⟩)]

theorem first_packets_keys : ∃ final,
    run (step plainArguments) initial [.pass (plainPass 10 (firstPackets ++ firstPackets) [])] = .ok final ∧
      final.ng_session.length = 3 ∧ (final.ng_session.filterMap tcpKey).Nodup ∧
      (final.ng_session.filterMap udpKey).Nodup ∧ (final.ng_session.filterMap liveAddresses).Nodup := by
  obtain ⟨final, hrun, hlength⟩ : ∃ final,
      run (step plainArguments) initial [.pass (plainPass 10 (firstPackets ++ firstPackets) [])] = .ok final ∧
        final.ng_session.length = 3 := ⟨_, rfl, rfl⟩
  exact ⟨final, hrun, hlength, keys_nodup_of_run hrun⟩

end Context

end inspector.netguard.jni
