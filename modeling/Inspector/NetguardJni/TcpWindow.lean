import Inspector.NetguardJni.TcpDownstream

open machine

namespace inspector.netguard.jni

theorem toNat_sub_of_compare_neg {ack seq : BitVec 32} (hbelow : compare_u32 ack seq < 0) :
    (seq - ack).toNat ≤ 2 ^ 31 := by
  rw [compare_u32] at hbelow
  split at hbelow
  · cases hbelow
  · split at hbelow
    · rename_i hside
      have hmax : (0x7FFFFFFF : BitVec 32).toNat = 0x7FFFFFFF := rfl
      simp only [gt_iff_lt, BitVec.lt_def, BitVec.toNat_sub, hmax] at hside ⊢
      omega
    · cases hbelow

namespace TcpSession

/-- What the app has not acknowledged cannot have wrapped around, and its window is at most
`0xFFFF << 14`. -/
structure Windowed (s : TcpSession) : Prop where
  scale : s.send_scale.toNat ≤ 14
  window : s.send_window.toNat < 2 ^ 30
  behind : s.Transfers → (s.local_seq - s.acked).toNat ≤ 2 ^ 31

variable {s next : TcpSession}

theorem toNat_shiftLeft_lt (window : BitVec 16) {scale : Nat} (hscale : scale ≤ 14) :
    (window.setWidth 32 <<< scale).toNat < 2 ^ 30 := by
  have hwindow : (window.setWidth 32).toNat = window.toNat := BitVec.toNat_setWidth_of_le (by decide)
  have hlt := window.isLt
  have hscaled : window.toNat * 2 ^ scale ≤ (2 ^ 16 - 1) * 2 ^ 14 :=
    Nat.mul_le_mul (by omega) (Nat.pow_le_pow_right (by decide) hscale)
  rw [BitVec.toNat_shiftLeft, hwindow, Nat.shiftLeft_eq, Nat.mod_eq_of_lt (by omega)]
  omega

/-- The room in the window, counted from what the app acknowledged. Where the number of the
acknowledgement lies above, the room is `0x10000` less. -/
theorem get_send_window_le (hs : s.Windowed) (hstate : s.Transfers) (hroom : 0 < s.get_send_window.toNat) :
    (s.local_seq - s.acked).toNat + s.get_send_window.toNat ≤ s.send_window.toNat := by
  have hbehind := hs.behind hstate
  have hwindow := hs.window
  have hunconfirmed := s.unconfirmed.isLt
  have hheaders : (BitVec.ofNat 32 ((s.unconfirmed.toNat + 1) * 40)).toNat = (s.unconfirmed.toNat + 1) * 40 :=
    Nat.mod_eq_of_lt (by omega)
  have hmore : (0x10000 + s.local_seq - s.acked).toNat = 0x10000 + (s.local_seq - s.acked).toNat := by
    have hpage : (0x10000 : BitVec 32).toNat = 0x10000 := rfl
    simp only [BitVec.toNat_sub, BitVec.toNat_add, hpage] at hbehind ⊢
    omega
  rw [get_send_window] at hroom ⊢
  generalize hcase : (if s.acked ≤ s.local_seq then s.local_seq - s.acked else 0x10000 + s.local_seq - s.acked) =
    unacked at hroom ⊢
  have hunacked : (s.local_seq - s.acked).toNat ≤ unacked.toNat ∧ unacked.toNat ≤ 2 ^ 31 + 0x10000 := by
    rw [← hcase]
    split
    · omega
    · rw [hmore]
      omega
  have hsum : (unacked + BitVec.ofNat 32 ((s.unconfirmed.toNat + 1) * 40)).toNat =
      unacked.toNat + (s.unconfirmed.toNat + 1) * 40 := by
    rw [BitVec.toNat_add, hheaders]
    omega
  split
  · rename_i hlt
    rw [BitVec.toNat_sub_of_le (BitVec.le_of_lt hlt), hsum]
    rw [BitVec.lt_def, hsum] at hlt
    omega
  · rename_i hge
    rw [if_neg hge] at hroom
    simp at hroom

theorem Windowed.effect {P : Promise} (hs : s.Windowed) (heffect : TcpEffect P s next) : next.Windowed := by
  cases heffect with
  | quiet | queue | send | plain | keepAlive | close | account | free | socks5 => exact ⟨hs.scale, hs.window, hs.behind⟩
  | window p => exact ⟨hs.scale, toNat_shiftLeft_lt p.window hs.scale, hs.behind⟩
  | refuse | closing | closed => exact ⟨hs.scale, hs.window, by simp [Transfers]⟩
  | synAck whole => cases whole <;> exact ⟨hs.scale, hs.window, by simp [Transfers]⟩
  | confirmFin whole hstate => exact ⟨hs.scale, hs.window, fun _ => hs.behind (.inr hstate)⟩
  | fin whole p hp hfin hstate =>
    refine ⟨hs.scale, hs.window, ?_⟩
    rcases hstate with ⟨hstate, -⟩ | ⟨hstate, -⟩
    · exact fun _ => hs.behind (.inl hstate)
    · cases whole <;> simp [Transfers, hstate]
  | finQueued p hp hfin hstate => exact ⟨hs.scale, hs.window, fun _ => hs.behind (.inl hstate)⟩
  | acked p hp hacked =>
    refine ⟨hs.scale, hs.window, fun _ => ?_⟩
    rcases hacked with hacked | ⟨hbelow, -⟩
    · simp [hacked]
    · exact toNat_sub_of_compare_neg hbelow
  | established hstate hacked => exact ⟨hs.scale, hs.window, fun _ => by simp [hacked]⟩
  | download data passed whole hstate hsocket hlength hpassed hdata hroom hmss =>
    refine ⟨hs.scale, hs.window, fun _ => ?_⟩
    cases whole
    · exact hs.behind hstate
    · have hpositive := List.length_pos_iff.mpr hdata
      have hle := get_send_window_le hs hstate (by omega)
      have hwindow := hs.window
      have hlen : (BitVec.ofNat 32 data.length).toNat = data.length := Nat.mod_eq_of_lt (by omega)
      have hgrown : (s.local_seq + BitVec.ofNat 32 data.length - s.acked).toNat =
          (s.local_seq - s.acked).toNat + data.length := by
        have hsmall : (s.local_seq - s.acked).toNat < 2 ^ 30 := by omega
        simp only [BitVec.toNat_sub, BitVec.toNat_add, hlen] at hsmall ⊢
        omega
      simp only [if_true, hgrown]
      omega
  | serverFin whole hstate =>
    refine ⟨hs.scale, hs.window, ?_⟩
    cases whole
    · simp [Transfers]
    · rcases hstate with hstate | hstate <;> simp [Transfers, hstate]

/-- What was logged since, of data for the app, lies in the window that the app has now. -/
def WithinWindow (s next : TcpSession) : Prop :=
  ∃ events, next.log = s.log ++ events ∧ ∀ segment whole, TcpEvent.tun segment whole ∈ events → segment.data ≠ [] →
    (segment.seq - next.acked).toNat + segment.data.length ≤ next.send_window.toNat ∧
      segment.data.length ≤ next.mss.toNat

/-- Effects that no packet has a part in leave the window alone. -/
theorem withinWindow_of_effects (hs : s.Windowed) (heffects : TcpEffects (fun _ _ _ => False) s next) :
    s.WithinWindow next := by
  have hsteps : next.Windowed ∧ next.acked = s.acked ∧ next.send_window = s.send_window ∧ next.mss = s.mss ∧
      s.WithinWindow next := by
    refine invariant_of_reflTransGen (I := fun next => next.Windowed ∧ next.acked = s.acked ∧
      next.send_window = s.send_window ∧ next.mss = s.mss ∧ s.WithinWindow next) ?_ ⟨hs, rfl, rfl, rfl, [], by simp,
        by simp⟩
      heffects
    rintro t u ⟨ht, hacked, hwindow, hmss, events, hlog, hevents⟩ heffect
    have hquiet : ∀ more : List TcpEvent, u.acked = t.acked → u.send_window = t.send_window → u.mss = t.mss →
        u.log = t.log ++ more → (∀ segment whole, TcpEvent.tun segment whole ∈ more → segment.data = []) →
        u.acked = s.acked ∧ u.send_window = s.send_window ∧ u.mss = s.mss ∧ s.WithinWindow u := by
      intro more huacked huwindow humss hulog hempty
      refine ⟨huacked.trans hacked, huwindow.trans hwindow, humss.trans hmss, events ++ more, ?_, ?_⟩
      · rw [hulog, hlog, List.append_assoc]
      · intro segment whole hmem hdata
        rw [huacked, huwindow, humss]
        rcases List.mem_append.mp hmem with hmem | hmem
        · exact hevents segment whole hmem hdata
        · exact absurd (hempty segment whole hmem) hdata
    refine ⟨ht.effect heffect, ?_⟩
    cases heffect with
    | quiet | closing | closed | free | established => exact hquiet [] rfl rfl rfl (by simp) (by simp)
    | window p hp | queue p hp | fin whole p hp | finQueued p hp | acked p hp => exact hp.elim
    | send | plain | keepAlive | refuse | synAck | confirmFin | serverFin | close | account | socks5 =>
      exact hquiet _ rfl rfl rfl rfl (by simp [segment])
    | download data passed whole hstate hsocket hlength hpassed hdata hroom hsmall =>
      refine ⟨hacked, hwindow, hmss, events ++ [.recv data, .tun (t.segment passed false true false false) whole], ?_,
        ?_⟩
      · rw [hlog, List.append_assoc]
      · intro other whole' hmem hother
        rcases List.mem_append.mp hmem with hmem | hmem
        · exact hevents other whole' hmem hother
        · obtain ⟨rfl, -⟩ : other = t.segment passed false true false false ∧ whole' = whole := by simpa using hmem
          have hpositive := List.length_pos_iff.mpr hdata
          have hle := get_send_window_le ht hstate (by omega)
          refine ⟨?_, by simpa [segment, hlength] using hsmall⟩
          simp only [segment, hlength]
          omega
  exact hsteps.2.2.2.2

/-- What was logged since holds no data for the app. -/
def Answers (s next : TcpSession) : Prop :=
  ∃ events, next.log = s.log ++ events ∧ ∀ segment whole, TcpEvent.tun segment whole ∈ events → segment.data = []

theorem answers_of_log_eq (hlog : next.log = s.log) : s.Answers next := ⟨[], by simpa using hlog, by simp⟩

theorem write_rst_answers (hlog : next.log = s.log) (tun : Tun) : s.Answers (next.write_rst tun) := by
  rw [write_rst]
  split <;> split <;> exact ⟨_, by rw [← hlog]; rfl, by simp [segment]⟩

theorem handleFin_answers (hlog : next.log = s.log) (tun : Tun) : s.Answers (next.handleFin tun) := by
  have hcases := writeOrClose_cases { next with remote_seq := next.remote_seq + 1 } tun [] false true false
  rw [handleFin, write_ack]
  split
  · split
    · rcases hcases with heq | heq
      all_goals
        rw [heq]
        exact ⟨_, by rw [← hlog]; rfl, by simp [segment]⟩
    · exact answers_of_log_eq hlog
  · rcases hcases with heq | heq
    all_goals
      rw [heq]
      exact ⟨_, by rw [← hlog]; rfl, by simp [segment]⟩
  · exact answers_of_log_eq hlog

/-- A packet of the app is answered without data. -/
theorem handle_tcp_answers (s : TcpSession) (tun : Tun) (now : Int) (p : TcpPacket) :
    s.Answers (s.handle_tcp tun now p) := by
  have hqueue : ((s.arrive now p).queue p).log = s.log := by
    rw [queue]
    split <;> rfl
  rw [handle_tcp]
  split
  · exact answers_of_log_eq rfl
  · split
    · exact write_rst_answers rfl tun
    · dsimp only
      generalize (s.arrive now p).queue p = t at hqueue ⊢
      split
      · exact write_rst_answers rfl tun
      · split
        · exact answers_of_log_eq hqueue
        · split
          · rw [handleCurrent]
            split
            · exact answers_of_log_eq hqueue
            · split
              · exact handleFin_answers hqueue tun
              · split
                · rw [handleAck]
                  dsimp only
                  split <;> exact answers_of_log_eq hqueue
                · exact answers_of_log_eq hqueue
          · rw [handleOther]
            split
            · exact answers_of_log_eq hqueue
            · split
              · split <;> exact answers_of_log_eq hqueue
              · exact write_rst_answers hqueue tun

section run

variable {config : NativeConfig} {key : SessionKey} {p : TcpPacket} {options : TcpOptions} {now : Int}
  {rand : BitVec 32}
  {buffer : SendBuffer} {actions : List Action} {a : Action}

/-- In every run, whatever the app acknowledges and announces, no segment reaches behind the
window that the app announced last, counted from what it acknowledged, and none is longer
than the app said it may be. -/
theorem data_within_window_of_run (hws : options.ws.toNat ≤ 14)
    (hrun : run (step config) (new key p options now rand buffer) actions = .ok s)
    (hstep : step config s a = .ok next) :
    s.WithinWindow next := by
  have hnew : (new key p options now rand buffer).Windowed :=
    ⟨hws, toNat_shiftLeft_lt p.window hws, by simp [Transfers, new]⟩
  obtain ⟨hconsistent, hwindowed⟩ := run_any_effects (I := Windowed) (fun s next _ hs heffect => hs.effect heffect)
    (consistent_new key p options now rand buffer) hnew hrun
  have hothers : (∀ tun now p, a ≠ .packet tun now p) → s.WithinWindow next := fun hother =>
    withinWindow_of_effects hwindowed
      (step_effects hconsistent (fun tun now p heq => absurd heq (hother tun now p)) hstep)
  cases a with
  | monitor | check | disallow | socket => exact hothers (by simp)
  | packet tun now p =>
    simp only [step] at hstep
    split at hstep
    · cases hstep
    · cases hstep
      obtain ⟨events, hlog, hempty⟩ := s.handle_tcp_answers tun now p
      exact ⟨events, hlog, fun segment whole hmem hdata => absurd (hempty segment whole hmem) hdata⟩

theorem replied_within_window : ∃ s next,
    run (step plainConfig) swappedSession [.socket (writable []),
      .packet (fun _ => true) 2 handshakeAck] = .ok s ∧
    step plainConfig s (.socket (readable (.bytes [65, 66]) true)) = .ok next ∧ s.WithinWindow next := by
  obtain ⟨s, hrun⟩ : ∃ s, run (step plainConfig) swappedSession [.socket (writable []),
      .packet (fun _ => true) 2 handshakeAck] = .ok s := ⟨_, rfl⟩
  obtain ⟨next, hstep⟩ : ∃ next, step plainConfig s (.socket (readable (.bytes [65, 66]) true)) = .ok next := by
    cases hrun
    exact ⟨_, rfl⟩
  exact ⟨s, next, hrun, hstep, data_within_window_of_run (by decide) hrun hstep⟩

end run

end TcpSession

end inspector.netguard.jni
