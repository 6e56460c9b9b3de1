import Inspector.NetguardJni.UdpSession

open bounded

namespace inspector.netguard.jni

namespace UdpSession

/-- `sizeof(struct dhcp_packet)`. -/
def DHCP_PACKET : Nat := 240

def DHCP_OPTION_MAGIC_NUMBER : List UInt8 := [0x63, 0x82, 0x53, 0x63]

/-- What `inet_pton` writes for `10.1.10.1`. -/
def dhcpServer : List UInt8 := [10, 1, 10, 1]

/-- The options of the answer to a request that names the server, or does not. -/
def dhcpOptions (siaddr : List UInt8) : List UInt8 :=
  [53, 1, if siaddr = [0, 0, 0, 0] then 2 else 5] ++ [1, 4, 255, 255, 255, 0] ++ ([3, 4] ++ dhcpServer) ++
    [51, 4, 0x10, 0x0E, 0, 0] ++ ([54, 4] ++ dhcpServer) ++ [6, 4, 8, 8, 8, 8] ++ [255]

/-- The answer to a request. The pointer to the options is moved by the size of the
packet, counted in packets. -/
def dhcpResponse (data siaddr : List UInt8) : Except Fault (List UInt8) := do
  let request ← slice data 0 DHCP_PACKET
  let response ← store (List.replicate 500 0) 0 request
  let response ← store response 0 [if siaddr = [0, 0, 0, 0] then 2 else 4]
  let response ← store response 8 [0, 0]
  let response ← store response 10 [0, 0]
  let response ← store response 12 [0, 0, 0, 0]
  let response ← store response 16 [10, 1, 10, 2]
  let response ← store response 20 dhcpServer
  let response ← store response 24 [0, 0, 0, 0]
  store response (DHCP_PACKET * DHCP_PACKET) (dhcpOptions siaddr)

/-- The address of the app is replaced before the answer is made. -/
def dhcpAddresses : Addresses → Addresses
  | .ip4 _ daddr => .ip4 0x0A010A01 daddr
  | .ip6 saddr daddr => .ip6 (0x0A010A01#32 ++ saddr.setWidth 96) daddr

def answerDhcp (tun : List UInt8 → Bool) (u : UdpSession) (data : List UInt8) : Except Fault UdpSession := do
  let siaddr ← slice data 20 4
  let response ← dhcpResponse data siaddr
  pure { u with
    key := { u.key with addresses := dhcpAddresses u.key.addresses }
    log := u.log ++ [.tun response (tun response)] }

/-- `check_dhcp`, which says whether the datagram is done with. -/
def check_dhcp (tun : List UInt8 → Bool) (u : UdpSession) (data : List UInt8) : Except Fault (UdpSession × Bool) :=
  if data.length < DHCP_PACKET then .ok (u, false)
  else do
    let option_format ← slice data 236 4
    let htype ← load data 1
    let hlen ← load data 2
    let opcode ← load data 0
    if option_format ≠ DHCP_OPTION_MAGIC_NUMBER then .ok (u, false)
    else if htype ≠ 1 ∨ hlen ≠ 6 then .ok (u, false)
    else if opcode = 1 then do
      let u ← u.answerDhcp tun data
      pure (u, true)
    else .ok (u, true)

/-- A discover or a request of an Ethernet client. -/
structure DhcpRequest (data : List UInt8) : Prop where
  length : DHCP_PACKET ≤ data.length
  opcode : data[0]? = some 1
  htype : data[1]? = some 1
  hlen : data[2]? = some 6
  magic : (data.drop 236).take 4 = DHCP_OPTION_MAGIC_NUMBER

theorem length_dhcpOptions (siaddr : List UInt8) : (dhcpOptions siaddr).length = 34 := by
  simp [dhcpOptions, dhcpServer]

/-- The options are written far behind the answer. -/
theorem dhcpResponse_eq {data : List UInt8} (siaddr : List UInt8) (hlength : DHCP_PACKET ≤ data.length) :
    dhcpResponse data siaddr = .error .store := by
  have hstore : ∀ (response elements : List UInt8) (i : Nat), response.length = 500 → i + elements.length ≤ 500 →
      ∃ next, store response i elements = .ok next ∧ next.length = 500 := by
    intro response elements i hresponse hfits
    refine ⟨_, store_of_le (by omega), ?_⟩
    rw [List.length_overwrite, hresponse]
  have hrequest : ((data.drop 0).take DHCP_PACKET).length = 240 := by
    rw [List.drop_zero, List.length_take, DHCP_PACKET]
    rw [DHCP_PACKET] at hlength
    omega
  rw [dhcpResponse, slice_of_le (by omega)]
  obtain ⟨first, hfirst, hlength⟩ :=
    hstore (List.replicate 500 0) ((data.drop 0).take DHCP_PACKET) 0 List.length_replicate (by omega)
  obtain ⟨opcode, hopcode, hlength⟩ := hstore first [if siaddr = [0, 0, 0, 0] then 2 else 4] 0 hlength (by simp)
  obtain ⟨secs, hsecs, hlength⟩ := hstore opcode [0, 0] 8 hlength (by simp)
  obtain ⟨flags, hflags, hlength⟩ := hstore secs [0, 0] 10 hlength (by simp)
  obtain ⟨ciaddr, hciaddr, hlength⟩ := hstore flags [0, 0, 0, 0] 12 hlength (by simp)
  obtain ⟨yiaddr, hyiaddr, hlength⟩ := hstore ciaddr [10, 1, 10, 2] 16 hlength (by simp)
  obtain ⟨server, hserver, hlength⟩ := hstore yiaddr dhcpServer 20 hlength (by simp [dhcpServer])
  obtain ⟨giaddr, hgiaddr, hlength⟩ := hstore server [0, 0, 0, 0] 24 hlength (by simp)
  have houtside : store giaddr (DHCP_PACKET * DHCP_PACKET) (dhcpOptions siaddr) = .error .store := by
    rw [store, if_neg]
    rw [hlength, length_dhcpOptions, DHCP_PACKET]
    omega
  simp only [bind, Except.bind, hfirst, hopcode, hsecs, hflags, hciaddr, hyiaddr, hserver, hgiaddr, houtside]

theorem answerDhcp_eq (tun : List UInt8 → Bool) (u : UdpSession) {data : List UInt8}
    (hlength : DHCP_PACKET ≤ data.length) :
    u.answerDhcp tun data = .error .store := by
  have hsiaddr : 20 + 4 ≤ data.length := by
    rw [DHCP_PACKET] at hlength
    omega
  rw [answerDhcp, slice_of_le hsiaddr]
  simp only [bind, Except.bind, dhcpResponse_eq _ hlength]

/-- A request faults, and every other datagram leaves the session as it is. -/
theorem check_dhcp_cases (tun : List UInt8 → Bool) (u : UdpSession) (data : List UInt8) :
    DhcpRequest data ∧ u.check_dhcp tun data = .error .store ∨
      ¬ DhcpRequest data ∧ ∃ done, u.check_dhcp tun data = .ok (u, done) := by
  rw [check_dhcp]
  by_cases hshort : data.length < DHCP_PACKET
  · rw [if_pos hshort]
    exact .inr ⟨fun hrequest => absurd hrequest.length (by omega), false, rfl⟩
  · have hlong : DHCP_PACKET ≤ data.length := by omega
    have hbytes : 240 ≤ data.length := hlong
    rw [if_neg hshort, slice_of_le (by omega), load_of_lt (by omega : 1 < data.length),
      load_of_lt (by omega : 2 < data.length), load_of_lt (by omega : 0 < data.length)]
    simp only [bind, Except.bind, pure, Except.pure]
    by_cases hmagic : (data.drop 236).take 4 = DHCP_OPTION_MAGIC_NUMBER
    · rw [if_neg (by simpa using hmagic)]
      by_cases hhardware : data.get ⟨1, by omega⟩ ≠ 1 ∨ data.get ⟨2, by omega⟩ ≠ 6
      · rw [if_pos hhardware]
        refine .inr ⟨fun hrequest => ?_, false, rfl⟩
        have htype := (List.getElem?_eq_some_iff.mp hrequest.htype).2
        have hlen := (List.getElem?_eq_some_iff.mp hrequest.hlen).2
        exact hhardware.elim (absurd htype) (absurd hlen)
      · rw [if_neg hhardware]
        rw [not_or, not_not, not_not] at hhardware
        by_cases hopcode : data.get ⟨0, by omega⟩ = 1
        · rw [if_pos hopcode, answerDhcp_eq tun u hlong]
          refine .inl ⟨⟨hlong, ?_, ?_, ?_, hmagic⟩, rfl⟩
          · exact List.getElem?_eq_some_iff.mpr ⟨_, hopcode⟩
          · exact List.getElem?_eq_some_iff.mpr ⟨_, hhardware.1⟩
          · exact List.getElem?_eq_some_iff.mpr ⟨_, hhardware.2⟩
        · rw [if_neg hopcode]
          refine .inr ⟨fun hrequest => hopcode ?_, true, rfl⟩
          exact (List.getElem?_eq_some_iff.mp hrequest.opcode).2
    · rw [if_pos hmagic]
      exact .inr ⟨fun hrequest => hmagic hrequest.magic, false, rfl⟩

/-- `check_dhcp` stays inside of its arrays if and only if the datagram is no request of an
Ethernet client, and then it leaves the session as it is. A request makes it write its options
outside of the response, so that no request is ever answered. -/
theorem check_dhcp_ok_iff (tun : List UInt8 → Bool) (u : UdpSession) (data : List UInt8) :
    ((∃ done, u.check_dhcp tun data = .ok (u, done)) ↔ ¬ DhcpRequest data) ∧
      (DhcpRequest data ↔ u.check_dhcp tun data = .error .store) := by
  rcases check_dhcp_cases tun u data with ⟨hrequest, hfault⟩ | ⟨hnone, done, hdone⟩
  · refine ⟨iff_of_false ?_ (not_not_intro hrequest), iff_of_true hrequest hfault⟩
    rintro ⟨done, hdone⟩
    rw [hfault] at hdone
    cases hdone
  · refine ⟨iff_of_true ⟨done, hdone⟩ hnone, iff_of_false hnone fun hfault => ?_⟩
    rw [hfault] at hdone
    cases hdone

end UdpSession

end inspector.netguard.jni
