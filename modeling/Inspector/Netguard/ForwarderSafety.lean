import Inspector.Netguard.Forwarder

open machine

namespace inspector.netguard

namespace Sinkhole

variable {s next : Sinkhole} {a : Step} {k : Nat} {t : Forwarder}

/-- Of each forwarder, the descriptor it was started for and how many had been
established when it was created. -/
def origins (s : Sinkhole) : List (Option Nat × Nat) := s.forwarders.map fun t => (t.vpn, t.established)

end Sinkhole

/-- What a forwarder may do: it closes its own descriptor, and it sets a field to null
that does not refer to a descriptor or a thread that is newer than its own. -/
def Effect.Own (origins : List (Option Nat × Nat)) : Effect → Prop
  | .close k d => ∃ n, origins[k]? = some (some d, n)
  | .clearVpn k vpn => ∀ d ∈ vpn, ∃ own n, origins[k]? = some (own, n) ∧ d < n
  | .clearThread k thread => ∀ j ∈ thread, j ≤ k

/-- An effect on a forwarder's own tunnel is so among later forwarders too. -/
theorem Effect.Own.mono {origins later : List (Option Nat × Nat)} {e : Effect} (hown : e.Own origins)
    (hlater : origins <+: later) : e.Own later := by
  have hkept : ∀ {k : Nat} {o : Option Nat × Nat}, origins[k]? = some o → later[k]? = some o := by
    intro k o hk
    obtain ⟨rest, rfl⟩ := hlater
    obtain ⟨hlt, -⟩ := List.getElem?_eq_some_iff.mp hk
    rw [List.getElem?_append_left hlt, hk]
  cases e with
  | close k d =>
    obtain ⟨n, hn⟩ := hown
    exact ⟨n, hkept hn⟩
  | clearVpn k vpn =>
    intro d hd
    obtain ⟨own, n, hn, hlt⟩ := hown d hd
    exact ⟨own, n, hkept hn, hlt⟩
  | clearThread k thread => exact hown

namespace Sinkhole

/-- No forwarder has taken down what is newer than itself. -/
def Safe (s : Sinkhole) : Prop := ∀ e ∈ s.log, e.Own s.origins

/-- A forwarder reads the field and sets the fields to null only while no descriptor
has been established since it was created. -/
def Timely (s : Sinkhole) : Step → Prop
  | .forwarder k _ => ∀ t ∈ s.forwarders[k]?,
    t.pc = .readVpn ∨ t.pc = .clearVpn ∨ t.pc = .clearThread → t.established = s.established
  | _ => True

instance decidableTimely (s : Sinkhole) (a : Step) : Decidable (s.Timely a) :=
  match a with
  | .forwarder k _ => inferInstanceAs (Decidable (∀ t ∈ s.forwarders[k]?,
      t.pc = .readVpn ∨ t.pc = .clearVpn ∨ t.pc = .clearThread → t.established = s.established))
  | .command _ => isTrue trivial
  | .handler _ => isTrue trivial

/-- Every forwarder is older than the last descriptor. -/
def Newest (s : Sinkhole) : Prop := ∀ o ∈ s.origins, o.2 < s.established

/-- What the fields refer to in a run of timely steps. -/
structure Current (s : Sinkhole) : Prop where
  vpn : ∀ d ∈ s.vpn, d + 1 = s.established
  thread : ∀ k ∈ s.vpnServerThread, k + 1 = s.origins.length
  ordered : s.origins.Pairwise fun o o' => o.2 < o'.2
  origins : ∀ o ∈ s.origins, o.2 ≤ s.established ∧ ∃ d, o.1 = some d ∧ d + 1 = o.2
  closing : ∀ t ∈ s.forwarders, ∀ d, t.pc = .closeVpn (some d) → t.vpn = some d
  safe : s.Safe

/-- What holds where the handler is. -/
def AtPc (s : Sinkhole) : HandlerPc → Prop
  | .checkVpn => s.vpn.isSome → s.Newest
  | .startNative => s.vpn.isSome ∧ s.Newest
  | .newThread vpn => (∃ d, vpn = some d ∧ d + 1 = s.established) ∧ s.Newest
  | _ => True

variable {s next : Sinkhole} {a : Step} {k : Nat} {t : Forwarder}

/-- A forwarder that goes on stays the one it was. -/
theorem origins_setPc (hk : s.forwarders[k]? = some t) (pc : ForwarderPc) :
    (s.setPc k t pc).origins = s.origins := by
  unfold origins setPc
  dsimp only
  apply List.ext_getElem?
  intro i
  rw [List.getElem?_map, List.getElem?_map, List.getElem?_set]
  by_cases hi : k = i
  · subst hi
    obtain ⟨hlt, -⟩ := List.getElem?_eq_some_iff.mp hk
    rw [if_pos rfl, if_pos hlt, hk]
    rfl
  · rw [if_neg hi]

/-- A forwarder is among the origins with its tunnel. -/
theorem mem_origins (hk : s.forwarders[k]? = some t) : (t.vpn, t.established) ∈ s.origins :=
  List.mem_map_of_mem (List.mem_of_getElem? hk)

/-- The origin of a forwarder is at the forwarder's place. -/
theorem getElem?_origins (hk : s.forwarders[k]? = some t) : s.origins[k]? = some (t.vpn, t.established) := by
  rw [origins, List.getElem?_map, hk]
  rfl

/-- The handler goes on and changes no field. -/
theorem Current.setHandler (hs : s.Current) (pc : HandlerPc) : ({ s with handler := pc } : Sinkhole).Current :=
  ⟨hs.vpn, hs.thread, hs.ordered, hs.origins, hs.closing, hs.safe⟩

/-- The mark of the tunnel thread does not matter. -/
theorem Current.setTunnel (hs : s.Current) (tunnelThread : Bool) :
    ({ s with tunnelThread } : Sinkhole).Current :=
  ⟨hs.vpn, hs.thread, hs.ordered, hs.origins, hs.closing, hs.safe⟩

/-- A forwarder may go on as long as it closes its own tunnel only. -/
theorem Current.setPc (hs : s.Current) (hk : s.forwarders[k]? = some t) {pc : ForwarderPc}
    (hclosing : ∀ d, pc = .closeVpn (some d) → t.vpn = some d) : (s.setPc k t pc).Current := by
  have horigins := origins_setPc hk pc
  refine ⟨hs.vpn, ?_, ?_, ?_, fun u hu d hpc => ?_, ?_⟩
  · rw [horigins]
    exact hs.thread
  · rw [horigins]
    exact hs.ordered
  · rw [horigins]
    exact hs.origins
  · rcases List.mem_or_eq_of_mem_set hu with hold | rfl
    · exact hs.closing u hold d hpc
    · exact hclosing d hpc
  · unfold Safe
    rw [horigins]
    exact hs.safe

/-- An effect on an own tunnel may be recorded. -/
theorem Current.record (hs : s.Current) {e : Effect} (hown : e.Own s.origins) : (s.record e).Current := by
  refine ⟨hs.vpn, hs.thread, hs.ordered, hs.origins, hs.closing, fun e' he' => ?_⟩
  rcases List.mem_append.mp he' with hold | hnew
  · exact hs.safe e' hold
  · rw [List.mem_singleton.mp hnew]
    exact hown

/-- The service may forget its tunnel. -/
theorem Current.clearVpn (hs : s.Current) : ({ s with vpn := none } : Sinkhole).Current :=
  ⟨fun _ hd => (by cases hd), hs.thread, hs.ordered, hs.origins, hs.closing, hs.safe⟩

/-- The service may forget its thread. -/
theorem Current.clearThread (hs : s.Current) : ({ s with vpnServerThread := none } : Sinkhole).Current :=
  ⟨hs.vpn, fun _ hk => (by cases hk), hs.ordered, hs.origins, hs.closing, hs.safe⟩

/-- A forwarder that is as new as the last descriptor is the last one. -/
theorem Current.le_of_established (hs : s.Current) (hk : s.forwarders[k]? = some t)
    (hlast : t.established = s.established) : ∀ j ∈ s.vpnServerThread, j ≤ k := by
  intro j hj
  by_contra hnot
  have hlength := hs.thread j hj
  have hjlt : j < s.origins.length := by omega
  obtain ⟨hklt, hown⟩ := List.getElem?_eq_some_iff.mp (getElem?_origins hk)
  have hless := List.pairwise_iff_getElem.mp hs.ordered k j hklt hjlt (by omega)
  have hbound := (hs.origins _ (List.getElem_mem hjlt)).1
  rw [hown] at hless
  dsimp only at hless
  omega

/-- A timely step of a forwarder. -/
theorem Current.forward {closes : Bool} (hs : s.Current) (hk : s.forwarders[k]? = some t)
    (htimely : t.pc = .readVpn ∨ t.pc = .clearVpn ∨ t.pc = .clearThread → t.established = s.established)
    (hstep : s.forward k t closes = .ok next) : next.Current := by
  unfold Sinkhole.forward at hstep
  split at hstep
  · cases hstep
  · cases hstep
    exact hs.setPc hk (by simp)
  · rename_i hpc
    cases hstep
    have hlast := htimely (.inl hpc)
    refine hs.setPc hk fun d hd => ?_
    have hvpn : s.vpn = some d := by simpa using hd
    obtain ⟨-, own, hown, hnumber⟩ := hs.origins _ (mem_origins hk)
    have hfield := hs.vpn d hvpn
    dsimp only at hown hnumber
    rw [hown]
    congr 1
    omega
  · cases hstep
    exact hs.setPc hk (by simp)
  · rename_i d hpc
    cases hstep
    refine (hs.setPc hk fun d' hd' => ?_).record ?_
    · cases closes <;> simp at hd'
    · rw [origins_setPc hk]
      have hown := hs.closing t (List.mem_of_getElem? hk) d hpc
      exact ⟨t.established, by rw [getElem?_origins hk, hown]⟩
  · rename_i hpc
    cases hstep
    have hlast := htimely (.inr (.inl hpc))
    refine Current.clearVpn ((hs.setPc hk (by simp)).record fun d hd => ?_)
    rw [origins_setPc hk]
    have hfield := hs.vpn d hd
    exact ⟨t.vpn, t.established, getElem?_origins hk, by omega⟩
  · rename_i hpc
    cases hstep
    have hlast := htimely (.inr (.inr hpc))
    exact Current.clearThread ((hs.setPc hk (by simp)).record (hs.le_of_established hk hlast))
  · cases hstep

/-- Where the handler is stays right when a forwarder takes a timely step. -/
theorem AtPc.forward {closes : Bool} {pc : HandlerPc} (hpc : s.AtPc pc)
    (hk : s.forwarders[k]? = some t)
    (htimely : t.pc = .readVpn ∨ t.pc = .clearVpn ∨ t.pc = .clearThread → t.established = s.established)
    (hstep : s.forward k t closes = .ok next) : next.AtPc pc := by
  have hsame : next.origins = s.origins ∧ next.established = s.established ∧
      (next.vpn = s.vpn ∨ (next.vpn = none ∧ ¬ s.Newest)) := by
    unfold Sinkhole.forward at hstep
    split at hstep
    · cases hstep
    · cases hstep
      exact ⟨origins_setPc hk _, rfl, .inl rfl⟩
    · cases hstep
      exact ⟨origins_setPc hk _, rfl, .inl rfl⟩
    · cases hstep
      exact ⟨origins_setPc hk _, rfl, .inl rfl⟩
    · cases hstep
      exact ⟨origins_setPc hk _, rfl, .inl rfl⟩
    · rename_i hclear
      cases hstep
      refine ⟨origins_setPc hk _, rfl, .inr ⟨rfl, fun hnewest => ?_⟩⟩
      have hless := hnewest _ (mem_origins hk)
      have hlast := htimely (.inr (.inl hclear))
      dsimp only at hless
      omega
    · cases hstep
      exact ⟨origins_setPc hk _, rfl, .inl rfl⟩
    · cases hstep
  obtain ⟨horigins, hestablished, hvpn⟩ := hsame
  have hnewest : next.Newest ↔ s.Newest := by
    unfold Newest
    rw [horigins, hestablished]
  unfold AtPc at hpc ⊢
  split
  · rw [hnewest]
    rcases hvpn with hkept | ⟨hnone, -⟩
    · rw [hkept]
      exact hpc
    · intro hsome
      rw [hnone] at hsome
      cases hsome
  · rw [hnewest]
    rcases hvpn with hkept | ⟨-, hnot⟩
    · rw [hkept]
      exact hpc
    · exact absurd hpc.2 hnot
  · rw [hnewest, hestablished]
    exact hpc
  · trivial

/-- A new descriptor. -/
theorem Current.establish (hs : s.Current) (pc : HandlerPc) :
    ({ s with vpn := some s.established, established := s.established + 1, handler := pc } : Sinkhole).Current ∧
      ({ s with vpn := some s.established, established := s.established + 1, handler := pc } : Sinkhole).Newest := by
  have hbound : ∀ o ∈ s.origins, o.2 < s.established + 1 := fun o ho => Nat.lt_succ_of_le (hs.origins o ho).1
  refine ⟨⟨fun d hd => ?_, hs.thread, hs.ordered, fun o ho => ?_, hs.closing, hs.safe⟩, hbound⟩
  · cases hd
    rfl
  · exact ⟨Nat.le_of_lt (hbound o ho), (hs.origins o ho).2⟩

/-- A new thread for the last descriptor. -/
theorem Current.newThread {d : Nat} (hs : s.Current) (hd : d + 1 = s.established) (hnewest : s.Newest)
    (pc : HandlerPc) : ({ s with
      vpnServerThread := some s.forwarders.length
      forwarders := s.forwarders ++ [{ vpn := some d, established := s.established, pc := .created }]
      handler := pc } : Sinkhole).Current := by
  have horigins : (s.forwarders ++ [(⟨some d, s.established, .created⟩ : Forwarder)]).map
      (fun t => (t.vpn, t.established)) = s.origins ++ [(some d, s.established)] := List.map_append
  refine ⟨hs.vpn, ?_, ?_, ?_, fun t ht own hpc => ?_, ?_⟩
  · intro k hk
    cases hk
    simp [Sinkhole.origins]
  · unfold Sinkhole.origins
    rw [horigins, List.pairwise_append]
    refine ⟨hs.ordered, List.pairwise_singleton _ _, fun o ho o' ho' => ?_⟩
    rw [List.mem_singleton.mp ho']
    exact hnewest o ho
  · unfold Sinkhole.origins
    rw [horigins]
    intro o ho
    rcases List.mem_append.mp ho with hold | hnew
    · exact hs.origins o hold
    · rw [List.mem_singleton.mp hnew]
      exact ⟨Nat.le_refl _, d, rfl, hd⟩
  · rcases List.mem_append.mp ht with hold | hnew
    · exact hs.closing t hold own hpc
    · rw [List.mem_singleton.mp hnew] at hpc
      cases hpc
  · intro e he
    unfold Sinkhole.origins
    rw [horigins]
    exact (hs.safe e he).mono (List.prefix_append _ _)

/-- One step of the handler. -/
theorem Current.handle (hs : s.Current) (hpc : s.AtPc s.handler) (answer : Bool) :
    (s.handle answer).Current ∧ (s.handle answer).AtPc (s.handle answer).handler := by
  unfold Sinkhole.handle
  split
  · exact ⟨hs, hpc⟩
  · refine ⟨hs.setHandler _, ?_⟩
    dsimp only
    split <;> trivial
  · refine ⟨hs.setHandler _, ?_⟩
    dsimp only
    split <;> trivial
  · refine ⟨hs.setHandler _, ?_⟩
    dsimp only
    split <;> trivial
  · refine ⟨hs.setHandler _, ?_⟩
    dsimp only
    split <;> trivial
  · split
    · exact ⟨hs.setHandler _, trivial⟩
    · exact ⟨(hs.setTunnel false).setHandler _, trivial⟩
  · exact ⟨hs.setHandler _, trivial⟩
  · exact ⟨hs.setHandler _, trivial⟩
  · exact ⟨hs.clearThread.setHandler _, trivial⟩
  · refine ⟨hs.setHandler _, ?_⟩
    dsimp only
    split <;> trivial
  · rename_i reload _
    refine ⟨hs.clearVpn.setHandler _, ?_⟩
    cases reload <;> trivial
  · split
    · obtain ⟨hcurrent, hnewest⟩ := hs.establish .checkVpn
      exact ⟨hcurrent, fun _ => hnewest⟩
    · exact ⟨hs.clearVpn.setHandler _, fun hsome => by cases hsome⟩
  · rename_i hcheck
    rw [hcheck] at hpc
    refine ⟨hs.setHandler _, ?_⟩
    dsimp only
    split
    · rename_i hsome
      exact ⟨hsome, hpc hsome⟩
    · trivial
  · rename_i hstart
    rw [hstart] at hpc
    split
    · obtain ⟨d, hd⟩ := Option.isSome_iff_exists.mp hpc.1
      exact ⟨hs.setHandler _, ⟨d, hd, hs.vpn d hd⟩, hpc.2⟩
    · exact ⟨(hs.setTunnel true).setHandler _, trivial⟩
  · rename_i vpn hnew
    rw [hnew] at hpc
    obtain ⟨⟨d, rfl, hd⟩, hnewest⟩ := hpc
    exact ⟨hs.newThread hd hnewest .setPriority, trivial⟩
  · refine ⟨hs.setHandler _, ?_⟩
    dsimp only
    split <;> trivial
  · split
    · exact ⟨hs.setHandler _, trivial⟩
    · split
      · rename_i hk
        exact ⟨(hs.setPc hk (by simp)).setHandler _, trivial⟩
      · exact ⟨hs.setHandler _, trivial⟩

/-- One timely step. -/
theorem Current.step (hs : s.Current ∧ s.AtPc s.handler) (htimely : s.Timely a) (hstep : s.step a = .ok next) :
    next.Current ∧ next.AtPc next.handler := by
  unfold Sinkhole.step at hstep
  cases a with
  | command cmd =>
    dsimp only at hstep
    split at hstep
    · cases hstep
      refine ⟨hs.1.setHandler _, ?_⟩
      cases cmd <;> trivial
    · cases hstep
  | handler answer =>
    dsimp only at hstep
    split at hstep
    · cases hstep
    · cases hstep
      exact hs.1.handle hs.2 answer
  | forwarder k closes =>
    dsimp only at hstep
    split at hstep
    · rename_i t hk
      have hforwarder := htimely t hk
      have hhandler : next.handler = s.handler := by
        unfold Sinkhole.forward at hstep
        split at hstep <;> cases hstep <;> rfl
      rw [hhandler]
      exact ⟨hs.1.forward hk hforwarder hstep, hs.2.forward hk hforwarder hstep⟩
    · cases hstep

theorem current_initial : initial.Current := by
  refine ⟨?_, ?_, List.Pairwise.nil, ?_, ?_, ?_⟩
  · intro d hd
    cases hd
  · intro k hk
    cases hk
  · intro o ho
    cases ho
  · intro t ht
    cases ht
  · intro e he
    cases he

/-- In every run of timely steps the forwarders are safe. -/
theorem safe_of_timely {steps : List Step} (htimely : Along step Timely initial steps) (hrun : run steps = .ok s) :
    s.Safe := by
  have hcurrent : s.Current ∧ s.AtPc s.handler := by
    refine run_along (I := fun s => s.Current ∧ s.AtPc s.handler) ?_ ⟨current_initial, trivial⟩ htimely hrun
    intro p a after hp ha hstep
    exact Current.step hp ha hstep
  exact hcurrent.1.safe

/-- The steps of a start with a vpn server. -/
def starting : List Step := .command .start :: List.replicate 7 (.handler true)

/-- A forwarder ends, and the vpn is started again. -/
def restarted : List Step := starting ++ List.replicate 5 (.forwarder 0 true) ++ starting

theorem safe_restarted : ∃ s, run restarted = .ok s ∧ s.established = 2 ∧ s.Safe := by
  have hok : ((run restarted).toOption.map Sinkhole.established) = some 2 := by decide
  have htimely : Along step Timely initial restarted := by decide
  cases hrun : run restarted with
  | error e =>
    rw [hrun] at hok
    cases hok
  | ok s =>
    rw [hrun] at hok
    exact ⟨s, rfl, Option.some.inj hok, safe_of_timely htimely hrun⟩

/-- The vpn is reloaded while its forwarder is still connecting, which then ends. -/
def reloaded : List Step :=
  starting ++ .command .reload :: List.replicate 12 (.handler true) ++ List.replicate 5 (.forwarder 0 true)

/-- The old forwarder closes the new descriptor and sets both fields to null. -/
theorem newer_vpn_closed : ∃ s, run reloaded = .ok s ∧
    s.log = [.close 0 1, .clearVpn 0 (some 1), .clearThread 0 (some 1)] ∧ s.origins = [(some 0, 1), (some 1, 2)] ∧
    ¬ s.Safe := by
  have hok : (run reloaded).toOption.map (fun s => (s.log, s.origins)) =
      some ([.close 0 1, .clearVpn 0 (some 1), .clearThread 0 (some 1)], [(some 0, 1), (some 1, 2)]) := by decide
  cases hrun : run reloaded with
  | error e =>
    rw [hrun] at hok
    cases hok
  | ok s =>
    rw [hrun] at hok
    obtain ⟨hlog, horigins⟩ := Prod.mk.inj (Option.some.inj hok)
    refine ⟨s, rfl, hlog, horigins, fun hsafe => ?_⟩
    obtain ⟨n, hn⟩ := hsafe (.close 0 1) (by rw [hlog]; simp)
    rw [horigins] at hn
    simp at hn

end Sinkhole

end inspector.netguard
