import Inspector.NetguardJni.SessionKeys

open machine Relation

namespace inspector.netguard.jni

/-- The packets of a connection among those that came in. -/
def ofKey (key : SessionKey) (received : List TcpArrival) : List TcpPacket :=
  received.filterMap fun arrival => if arrival.key = key then some arrival.packet else none

/-- A session is what a run makes of the SYN of its connection, with the options that this
SYN carries, and of the packets behind it. It gets each of them once and in their order,
save that a repeated SYN may be dropped. -/
def Follows (config : NativeConfig) (received : List TcpArrival) (s : TcpSession) : Prop :=
  ∃ before syn later options now rand buffer actions,
    received = before ++ syn :: later ∧ syn.packet.syn = true ∧ syn.key = s.key ∧ syn.Offers options ∧
      run (TcpSession.step config) (TcpSession.new s.key syn.packet options now rand buffer) actions = .ok s ∧
      (handled actions).Sublist (ofKey s.key later) ∧
      ((handled actions).filter fun p => !p.syn) = (ofKey s.key later).filter fun p => !p.syn

@[simp] theorem ofKey_append (key : SessionKey) (first second : List TcpArrival) :
    ofKey key (first ++ second) = ofKey key first ++ ofKey key second := List.filterMap_append

theorem ofKey_same (arrival : TcpArrival) : ofKey arrival.key [arrival] = [arrival.packet] := by
  simp [ofKey]

theorem ofKey_other {key : SessionKey} {arrival : TcpArrival} (hne : arrival.key ≠ key) : ofKey key [arrival] = [] := by
  simp [ofKey, hne]

theorem handled_append (first second : List TcpSession.Action) :
    handled (first ++ second) = handled first ++ handled second := List.filterMap_append

variable {config : NativeConfig} {received : List TcpArrival} {s t : TcpSession}

theorem follows_new (received : List TcpArrival) {arrival : TcpArrival} (hsyn : arrival.packet.syn = true)
    {options : TcpOptions} (hoptions : arrival.Offers options) (now : Int) (rand : BitVec 32) (buffer : SendBuffer) :
    Follows config (received ++ [arrival]) (TcpSession.new arrival.key arrival.packet options now rand buffer) :=
  ⟨received, arrival, [], options, now, rand, buffer, [], rfl, hsyn, rfl, hoptions, rfl, List.Sublist.refl [], rfl⟩

theorem Follows.consistent (hs : Follows config received s) : s.Consistent := by
  obtain ⟨_, syn, _, options, now, rand, buffer, actions, _, _, _, _, hrun, _⟩ := hs
  exact (TcpSession.key_of_run (TcpSession.consistent_new s.key syn.packet options now rand buffer) hrun).1

/-- The session goes on without a packet. -/
theorem Follows.evolve (hs : Follows config received s) {more : List TcpSession.Action} (hquiet : handled more = [])
    (hmore : run (TcpSession.step config) s more = .ok t) : Follows config received t := by
  have hkey : t.key = s.key := (TcpSession.key_of_run hs.consistent hmore).2
  obtain ⟨before, syn, later, options, now, rand, buffer, actions, hreceived, hsyn, hsame, hoptions, hrun, hsublist,
    hfilter⟩ := hs
  refine ⟨before, syn, later, options, now, rand, buffer, actions ++ more, hreceived, hsyn, hsame.trans hkey.symm,
    hoptions, ?_, ?_, ?_⟩
  · rw [hkey]
    exact (run_append hrun).trans hmore
  · rw [hkey, handled_append, hquiet, List.append_nil]
    exact hsublist
  · rw [hkey, handled_append, hquiet, List.append_nil]
    exact hfilter

/-- A packet comes in that the session does not get. -/
theorem Follows.record (hs : Follows config received s) {arrival : TcpArrival}
    (hunhandled : arrival.packet.syn = true ∨ arrival.key ≠ s.key) : Follows config (received ++ [arrival]) s := by
  obtain ⟨before, syn, later, options, now, rand, buffer, actions, hreceived, hsyn, hsame, hoptions, hrun, hsublist,
    hfilter⟩ := hs
  refine ⟨before, syn, later ++ [arrival], options, now, rand, buffer, actions, ?_, hsyn, hsame, hoptions, hrun, ?_, ?_⟩
  · rw [hreceived]
    simp
  · rw [ofKey_append]
    exact hsublist.trans (List.sublist_append_left _ _)
  · rw [ofKey_append, List.filter_append, hfilter]
    have hnothing : ((ofKey s.key [arrival]).filter fun p => !p.syn) = [] := by
      by_cases hkey : arrival.key = s.key
      · rw [← hkey, ofKey_same]
        simp [hunhandled.resolve_right fun hne => hne hkey]
      · rw [ofKey_other hkey]
        rfl
    rw [hnothing, List.append_nil]

/-- A packet of the connection comes in, and the session handles it. -/
theorem Follows.packet (hs : Follows config received s) (hfreed : s.freed = false) (tun : Tun) (now : Int)
    {arrival : TcpArrival} (hsame : arrival.key = s.key) :
    Follows config (received ++ [arrival]) (s.handle_tcp tun now arrival.packet) := by
  have hstep : TcpSession.step config s (.packet tun now arrival.packet) =
    .ok (s.handle_tcp tun now arrival.packet) := by
    rw [TcpSession.step, if_neg (by simp [hfreed])]
  have hmore : run (TcpSession.step config) s [.packet tun now arrival.packet] =
      .ok (s.handle_tcp tun now arrival.packet) := (run_singleton _ _ _).trans hstep
  have hkey : (s.handle_tcp tun now arrival.packet).key = s.key := (TcpSession.key_of_run hs.consistent hmore).2
  have hhandled : handled [.packet tun now arrival.packet] = ofKey s.key [arrival] := by
    rw [← hsame, ofKey_same]
    rfl
  obtain ⟨before, syn, later, options, start, rand, buffer, actions, hreceived, hsyn, hfirst, hoptions, hrun, hsublist,
    hfilter⟩ := hs
  refine ⟨before, syn, later ++ [arrival], options, start, rand, buffer,
    actions ++ [.packet tun now arrival.packet], ?_, hsyn, hfirst.trans hkey.symm, hoptions, ?_, ?_, ?_⟩
  · rw [hreceived]
    simp
  · rw [hkey]
    exact (run_append hrun).trans hmore
  · rw [hkey, handled_append, hhandled, ofKey_append]
    exact hsublist.append (List.Sublist.refl _)
  · rw [hkey, handled_append, hhandled, ofKey_append, List.filter_append, List.filter_append, hfilter]

namespace Context

open NgSession

/-- Every TCP session of the list follows its connection, and so did those that were freed. -/
structure Tracked (config : NativeConfig) (ctx : Context) : Prop where
  distinct : ctx.Distinct
  listed : ∀ s, .tcp s ∈ ctx.ng_session → Follows config ctx.received s
  deleted : ∀ s, .tcp s ∈ ctx.deleted → ∃ received, received <+: ctx.received ∧ Follows config received s

variable {config : NativeConfig} {ctx next : Context}

theorem Tracked.deleted_append (hctx : ctx.Tracked config) (more : List TcpArrival) {s : TcpSession}
    (hs : .tcp s ∈ ctx.deleted) : ∃ received, received <+: ctx.received ++ more ∧ Follows config received s := by
  obtain ⟨received, hprefix, hfollows⟩ := hctx.deleted s hs
  exact ⟨received, hprefix.trans (List.prefix_append _ _), hfollows⟩

/-- A packet comes in for which there is no session. -/
theorem follows_of_none (hctx : ctx.Tracked config) {arrival : TcpArrival}
    (hnone : ctx.ng_session.any (isTcp arrival.key) = false) {s : TcpSession} (hs : .tcp s ∈ ctx.ng_session) :
    Follows config (ctx.received ++ [arrival]) s := by
  refine (hctx.listed s hs).record (.inr fun hkey => ?_)
  rw [List.any_eq_false] at hnone
  exact hnone _ hs (by simp [isTcp, hkey])

theorem Tracked.change (hsound : ctx.Sound) (hctx : ctx.Tracked config) (hchange : Change config ctx next) :
    next.Tracked config := by
  have hdistinct := hctx.distinct.change hchange
  cases hchange with
  | evolve last_check sessions hsessions =>
    have hall : ∀ t, .tcp t ∈ sessions → Follows config ctx.received t := by
      intro t ht
      obtain ⟨s, hs, hst⟩ := exists_of_evolve hsessions ht
      cases hst with
      | tcp actions hhandled hrun => exact (hctx.listed _ hs).evolve hhandled hrun
    refine ⟨hdistinct, fun t ht => hall t (List.mem_filter.mp ht).1, fun t ht => ?_⟩
    rcases List.mem_append.mp ht with ht | ht
    · exact hctx.deleted t ht
    · exact ⟨ctx.received, List.prefix_rfl, hall t (List.mem_filter.mp ht).1⟩
  | clear => exact ⟨hdistinct, fun _ hs => absurd hs List.not_mem_nil, hctx.deleted⟩
  | addIcmp s now message => exact ⟨hdistinct, fun t ht => hctx.listed t (by simpa [add] using ht), hctx.deleted⟩
  | addUdp s now redirect => exact ⟨hdistinct, fun t ht => hctx.listed t (by simpa [add] using ht), hctx.deleted⟩
  | block key now mss sent received =>
    exact ⟨hdistinct, fun t ht => hctx.listed t (by simpa [add] using ht), hctx.deleted⟩
  | record arrival hunhandled =>
    refine ⟨hdistinct, fun t ht => ?_, fun t ht => hctx.deleted_append _ ht⟩
    rcases hunhandled with hsyn | hnone
    · exact (hctx.listed t ht).record (.inl hsyn)
    · exact follows_of_none hctx hnone ht
  | unknown arrival hsyn hnone =>
    exact ⟨hdistinct, fun t ht => follows_of_none hctx hnone ht, fun t ht => hctx.deleted_append _ ht⟩
  | packet arrival tun now =>
    refine ⟨hdistinct, fun t ht => ?_, fun t ht => hctx.deleted_append _ ht⟩
    rcases List.mem_modifyFirst_of_nodup hctx.distinct.tcp (isTcp_iff arrival.key) ht with ⟨hmem, hother⟩ |
      ⟨s, hfind, heq⟩
    · exact (hctx.listed t hmem).record (.inr fun hkey => by simp [isTcp, hkey] at hother)
    · obtain ⟨hmem, hkey⟩ := List.mem_and_of_find hfind
      cases s with
      | icmp s => cases hkey
      | udp s => cases hkey
      | tcp s =>
        have hsame : s.key = arrival.key := by simpa [isTcp] using hkey
        cases heq
        exact (hctx.listed s hmem).packet (hsound _ hmem) tun now hsame.symm
  | addTcp arrival options now rand buffer hsyn hoptions hnone =>
    refine ⟨hdistinct, fun t ht => ?_, fun t ht => hctx.deleted_append _ ht⟩
    cases ht with
    | head => exact follows_new ctx.received hsyn hoptions now rand buffer
    | tail _ ht => exact follows_of_none hctx hnone ht

/-- In every run of the thread, each TCP session of the list is what a run of a session makes
of a SYN of its connection with its options, and of all packets of the connection that came in
behind it, each handled once and in their order, save for repeated SYNs. A session that was
freed is so for the packets up to a moment. -/
theorem follows_of_run {a : Arguments} {actions : List Action} {final : Context}
    (hrun : run (step a) initial actions = .ok final) (s : TcpSession) :
    (.tcp s ∈ final.ng_session → Follows a.config final.received s) ∧
      (.tcp s ∈ final.deleted → ∃ received, received <+: final.received ∧ Follows a.config received s) := by
  have hinitial : initial.Tracked a.config := by
    refine ⟨distinct_initial, ?_, ?_⟩
    · exact fun _ hs => absurd hs List.not_mem_nil
    · exact fun _ hs => absurd hs List.not_mem_nil
  obtain ⟨-, htracked⟩ := run_changes (fun _ _ hsound hctx hchange => Tracked.change hsound hctx hchange) sound_initial
    hinitial hrun
  exact ⟨htracked.listed s, htracked.deleted s⟩

/-- The SYN of a connection comes in twice, with an option for the scale of the window, and
then its acknowledgement. A packet of another connection comes in between them. -/
def strayPackets : List (Reception × IpPacket) := [
  (plainReception, ⟨queryKey.addresses, .tcp 4000 80 TcpSession.synPacket (fun i => [3, 3, 7, 1].getD i 0) 4⟩),
  (plainReception, ⟨queryKey.addresses, .tcp 4000 80 TcpSession.synPacket (fun i => [3, 3, 7, 1].getD i 0) 4⟩),
  (plainReception, ⟨queryKey.addresses, .tcp 4001 80 TcpSession.handshakeAck (fun _ => 0) 0⟩),
  (plainReception, ⟨queryKey.addresses, .tcp 4000 80 TcpSession.handshakeAck (fun _ => 0) 0⟩)]

theorem stray_follows : ∃ final s,
    run (step plainArguments) initial [.pass (plainPass 10 strayPackets [])] = .ok final ∧
    final.ng_session = [.tcp s] ∧ s.send_scale = 7 ∧ final.received.length = 4 ∧
      Follows TcpSession.plainConfig final.received s := by
  obtain ⟨final, s, hrun, hlist, hscale, hlength⟩ : ∃ final s,
      run (step plainArguments) initial [.pass (plainPass 10 strayPackets [])] = .ok final ∧
        final.ng_session = [.tcp s] ∧ s.send_scale = 7 ∧ final.received.length = 4 := ⟨_, _, rfl, rfl, rfl, rfl⟩
  exact ⟨final, s, hrun, hlist, hscale, hlength, (follows_of_run hrun s).1 (hlist ▸ List.mem_singleton_self _)⟩

end Context

end inspector.netguard.jni
