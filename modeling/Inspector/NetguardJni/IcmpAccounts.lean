import Inspector.NetguardJni.UdpAccounts

open machine onesComplement

namespace inspector.netguard.jni

/-- The addresses of what comes back. -/
def Addresses.reversed : Addresses → Addresses
  | .ip4 saddr daddr => .ip4 daddr saddr
  | .ip6 saddr daddr => .ip6 daddr saddr

/-- A stored number adds itself to the sum of the words. -/
theorem wordSum_storeUInt16 (w : BitVec 16) : wordSum (storeUInt16 w) = w.toNat := by
  have hlt := w.isLt
  simp only [storeUInt16, wordSum, UInt8.toNat, BitVec.extractLsb'_toNat, Nat.shiftRight_eq_div_pow]
  omega

@[simp] theorem length_storeUInt16 (w : BitVec 16) : (storeUInt16 w).length = 2 := rfl

/-- A stored number of four bytes adds its two halves. -/
theorem wordSum_storeUInt32 (w : BitVec 32) : wordSum (storeUInt32 w) = w.toNat % 65536 + w.toNat / 65536 := by
  have hlt := w.isLt
  rw [storeUInt32, wordSum_append (by simp), wordSum_storeUInt16, wordSum_storeUInt16, BitVec.extractLsb'_toNat,
    BitVec.extractLsb'_toNat, Nat.shiftRight_eq_div_pow, Nat.shiftRight_eq_div_pow]
  omega

/-- A number in the order of the network. -/
theorem wordSum_bytes16 (w : BitVec 16) :
    wordSum (TcpSession.bytes16 w) = w.toNat / 256 + 256 * (w.toNat % 256) := by
  have hlt := w.isLt
  simp only [TcpSession.bytes16, wordSum, UInt8.toNat, BitVec.extractLsb'_toNat, Nat.shiftRight_eq_div_pow]
  omega

@[simp] theorem length_bytes128 (w : BitVec 128) : (TcpSession.bytes128 w).length = 16 := rfl

/-- The order of the addresses does not matter. -/
theorem wordSum_ip6_hdr_pseudo (src dst : BitVec 128) {len : List UInt8} (hlen : len.length = 4) (nxt : UInt8) :
    wordSum (ip6_hdr_pseudo src dst len nxt) =
      wordSum (TcpSession.bytes128 src) + wordSum (TcpSession.bytes128 dst) + wordSum len + 256 * nxt.toNat := by
  have hsecond : (TcpSession.bytes128 src ++ TcpSession.bytes128 dst).length % 2 = 0 := by simp
  have hthird : (TcpSession.bytes128 src ++ TcpSession.bytes128 dst ++ len).length % 2 = 0 := by simp [hlen]
  rw [ip6_hdr_pseudo, wordSum_append hthird, wordSum_append hsecond, wordSum_append (by simp)]
  simp [wordSum]

/-- The pseudo header takes forty bytes, whatever is written to its length. -/
theorem length_ip6_hdr_pseudo (src dst : BitVec 128) {len : List UInt8} (hlen : len.length = 4) (nxt : UInt8) :
    (ip6_hdr_pseudo src dst len nxt).length = 40 := by
  simp [ip6_hdr_pseudo, hlen]

namespace IcmpSession

/-- What the checksum of ICMPv6 covers besides the message. -/
def pseudoHeader (src dst : BitVec 128) (length : Nat) : List UInt8 :=
  ip6_hdr_pseudo src dst ([0, 0] ++ TcpSession.bytes16 (BitVec.ofNat 16 length)) IPPROTO_ICMPV6

/-- A receiver finds the checksum of the message to be right. -/
def Checksummed (message : List UInt8) : Addresses → Prop
  | .ip4 _ _ => Valid message
  | .ip6 src dst => Valid (pseudoHeader src dst message.length ++ message)

@[simp] theorem length_setChecksum (message : List UInt8) (start : BitVec 16) :
    (setChecksum message start).length = message.length := by
  simp [setChecksum]

@[simp] theorem length_setId (message : List UInt8) (id : IcmpId) : (setId message id).length = message.length := by
  simp [setId]

@[simp] theorem length_request (message : List UInt8) (addresses : Addresses) (plen : BitVec 16) (nxt : UInt8) :
    (request message addresses plen nxt).length = message.length := by
  simp [request]

@[simp] theorem length_reply (s : IcmpSession) (data : List UInt8) : (s.reply data).length = data.length := by
  simp [reply]

/-- With the checksum in its place, the sum is filled up. -/
theorem fold_setChecksum (start : BitVec 16) {message : List UInt8} (hmin : 4 ≤ message.length)
    (hmax : message.length ≤ 65535) : fold (start.toNat + wordSum (setChecksum message start)) = 65535 := by
  obtain ⟨a, b, c, d, rest, rfl⟩ : ∃ a b c d rest, message = a :: b :: c :: d :: rest := by
    match message, hmin with
    | a :: b :: c :: d :: rest, _ => exact ⟨a, b, c, d, rest, rfl⟩
  have hput : ∀ x y z w : UInt8, (a :: b :: z :: w :: rest).overwrite 2 [x, y] = a :: b :: x :: y :: rest := by
    intro x y z w
    simp [List.overwrite]
  have hlength : (a :: b :: 0 :: 0 :: rest).length ≤ 2 ^ 16 := hmax.trans (by omega)
  have hsum := toNat_calc_checksum start hlength
  have hfilled := fold_add_complement (start.toNat + wordSum (a :: b :: 0 :: 0 :: rest))
  have hstored := wordSum_storeUInt16 (~~~ calc_checksum start (a :: b :: 0 :: 0 :: rest))
  rw [BitVec.toNat_not, hsum, storeUInt16, wordSum, wordSum] at hstored
  rw [setChecksum, hput, storeUInt16, hput]
  rw [← hfilled]
  congr 1
  simp only [wordSum, UInt8.toNat_zero] at hstored ⊢
  omega

/-- A message of IPv4 that gets a checksum has a right one, whatever was in its place. -/
theorem valid_setChecksum {message : List UInt8} (hmin : 4 ≤ message.length) (hmax : message.length ≤ 65535) :
    Valid (setChecksum message 0) := by
  have hfold := fold_setChecksum 0 hmin hmax
  have hzero : (0 : BitVec 16).toNat = 0 := rfl
  rw [hzero, Nat.zero_add] at hfold
  exact (valid_iff _).mpr hfold

/-- The checksum covers what stands in front of the message, if that has the sum that was
started with. -/
theorem valid_append_iff {header pseudo : List UInt8} (heven : header.length % 2 = 0) (hpos : 0 < wordSum header)
    {start : BitVec 16} (hstart : start.toNat = fold (wordSum pseudo)) {message : List UInt8}
    (hmin : 4 ≤ message.length) (hmax : message.length ≤ 65535) :
    Valid (header ++ setChecksum message start) ↔ wordSum header % 65535 = wordSum pseudo % 65535 := by
  have hfold := fold_setChecksum start hmin hmax
  rw [hstart, fold_add_fold, fold_eq_ones_iff] at hfold
  rw [valid_iff, wordSum_append heven, fold_eq_ones_iff]
  omega

/-- An echo request for IPv4 is in order. -/
theorem request_valid (saddr daddr : BitVec 32) (plen : BitVec 16) (nxt : UInt8) {message : List UInt8}
    (hmin : ICMP_MINLEN ≤ message.length) (hmax : message.length ≤ 65535) :
    Valid (request message (.ip4 saddr daddr) plen nxt) := by
  have hfour : 4 ≤ ICMP_MINLEN := by decide
  exact valid_setChecksum (by simpa using hfour.trans hmin) (by simpa using hmax)

/-- No message that a socket delivers is longer than the checksum can count. -/
theorem maxmsg_le (s : IcmpSession) : s.maxmsg ≤ 65535 := by
  rw [maxmsg]
  split
  · exact Nat.le_of_ble_eq_true rfl
  · exact Nat.le_of_ble_eq_true rfl

/-- A length that is reduced by the header and not swapped never has the sum that it should. -/
theorem wordSum_length_ne {length : Nat} (hmax : length ≤ 65535) :
    wordSum ([0, 0] ++ TcpSession.bytes16 (BitVec.ofNat 16 length)) % 65535 ≠
      wordSum (storeUInt32 (BitVec.ofNat 32 length - 40)) % 65535 := by
  have hforty : (40 : BitVec 32).toNat = 40 := rfl
  rw [wordSum_append rfl, wordSum_bytes16, wordSum_storeUInt32, BitVec.toNat_sub, BitVec.toNat_ofNat,
    BitVec.toNat_ofNat, hforty]
  have hsmall : length % 2 ^ 16 = length := Nat.mod_eq_of_lt (by omega)
  have hbytes := Nat.div_add_mod length 256
  simp only [wordSum, UInt8.toNat_zero, hsmall]
  by_cases hlong : 40 ≤ length
  · have hreduced : (2 ^ 32 - 40 + length % 2 ^ 32) % 2 ^ 32 = length - 40 := by omega
    have hlow : (length - 40) % 65536 = length - 40 := Nat.mod_eq_of_lt (by omega)
    have hhigh : (length - 40) / 65536 = 0 := Nat.div_eq_of_lt (by omega)
    rw [hreduced, hlow, hhigh]
    omega
  · have hreduced : (2 ^ 32 - 40 + length % 2 ^ 32) % 2 ^ 32 = 65536 * 65535 + (65496 + length) := by omega
    have hlow : (65536 * 65535 + (65496 + length)) % 65536 = 65496 + length := by omega
    have hhigh : (65536 * 65535 + (65496 + length)) / 65536 = 65535 := by omega
    rw [hreduced, hlow, hhigh]
    omega

/-- The pseudo header of a message that goes by the rules has the same length. -/
theorem length_pseudoHeader (src dst : BitVec 128) (length : Nat) : (pseudoHeader src dst length).length = 40 := rfl

theorem length_lengthField (length : Nat) : ([0, 0] ++ TcpSession.bytes16 (BitVec.ofNat 16 length)).length = 4 := rfl

/-- A message has a right checksum for ICMPv6 if and only if its length goes into the sum
as it should. -/
theorem valid_pseudoHeader_iff (src dst : BitVec 128) {len : List UInt8} (hlen : len.length = 4) {message : List UInt8}
    (hmin : 4 ≤ message.length) (hmax : message.length ≤ 65535) :
    Valid (pseudoHeader src dst message.length ++
        setChecksum message (calc_checksum 0 (ip6_hdr_pseudo src dst len IPPROTO_ICMPV6))) ↔
      wordSum ([0, 0] ++ TcpSession.bytes16 (BitVec.ofNat 16 message.length)) % 65535 = wordSum len % 65535 := by
  have hlength := length_ip6_hdr_pseudo src dst hlen IPPROTO_ICMPV6
  have hstart : (calc_checksum 0 (ip6_hdr_pseudo src dst len IPPROTO_ICMPV6)).toNat = _ :=
    toNat_calc_checksum 0 (by omega)
  have hzero : (0 : BitVec 16).toNat = 0 := rfl
  rw [hzero, Nat.zero_add] at hstart
  have hcovered := wordSum_ip6_hdr_pseudo src dst (length_lengthField message.length) IPPROTO_ICMPV6
  have hprotocol : IPPROTO_ICMPV6.toNat = 58 := rfl
  rw [valid_append_iff (by rw [length_pseudoHeader]) (by rw [pseudoHeader]; omega) hstart hmin hmax, pseudoHeader,
    hcovered, wordSum_ip6_hdr_pseudo src dst hlen]
  omega

/-- The app finds the checksum of a reply to be right if and only if it is one of IPv4. -/
theorem reply_checksummed_iff (s : IcmpSession) {data : List UInt8} (hmin : 4 ≤ data.length)
    (hmax : data.length ≤ s.maxmsg) :
    Checksummed (s.reply data) s.addresses.reversed ↔ ∃ saddr daddr, s.addresses = .ip4 saddr daddr := by
  have hidMin : 4 ≤ (setId data s.id).length := by simpa using hmin
  have hidMax : (setId data s.id).length ≤ 65535 := by simpa using hmax.trans s.maxmsg_le
  rw [reply]
  cases s.addresses with
  | ip4 saddr daddr => exact ⟨fun _ => ⟨saddr, daddr, rfl⟩, fun _ => valid_setChecksum hidMin hidMax⟩
  | ip6 saddr daddr =>
    constructor
    · intro hvalid
      rw [Addresses.reversed, Checksummed, length_setChecksum, ← length_setId data s.id] at hvalid
      exact absurd ((valid_pseudoHeader_iff daddr saddr rfl hidMin hidMax).mp hvalid) (wordSum_length_ne hidMax)
    · rintro ⟨_, _, hversion⟩
      cases hversion

/-- The checksum is stored before the bytes of the ID and the data. -/
theorem getElem?_setChecksum (message : List UInt8) (start : BitVec 16) {i : Nat} (hi : 4 ≤ i) :
    (setChecksum message start)[i]? = message[i]? := by
  rw [setChecksum, List.getElem?_overwrite_after (by simpa [storeUInt16] using hi),
    List.getElem?_overwrite_after (by simpa using hi)]

/-- A reply has the ID of the session. -/
theorem icmp_id_reply (s : IcmpSession) {data : List UInt8} (hmin : ICMP_MINLEN ≤ data.length) :
    icmp_id (s.reply data) = s.id := by
  have hsix : 6 ≤ ICMP_MINLEN := by decide
  have hfits : 4 + [s.id.1, s.id.2].length ≤ data.length := hsix.trans hmin
  have hfirst : (setId data s.id)[4]? = some s.id.1 := List.getElem?_overwrite (i := 0) (by simp) hfits
  have hsecond : (setId data s.id)[5]? = some s.id.2 := List.getElem?_overwrite (i := 1) (by simp) hfits
  rw [icmp_id, reply, List.getD_eq_getElem?_getD, List.getD_eq_getElem?_getD, getElem?_setChecksum _ _ (by omega),
    getElem?_setChecksum _ _ (by omega), hfirst, hsecond]
  rfl

/-- What is sent has a right checksum, for IPv4. What the app gets has the ID of the
session, and for IPv4 only a right checksum. -/
def Checked (addresses : Addresses) (id : IcmpId) : IcmpEvent → Prop
  | .send message =>
    ∀ saddr daddr, addresses = .ip4 saddr daddr → ICMP_MINLEN ≤ message.length → message.length ≤ 65535 → Valid message
  | .tun message _ =>
    ICMP_MINLEN ≤ message.length → icmp_id message = id ∧
      (Checksummed message addresses.reversed ↔ ∃ saddr daddr, addresses = .ip4 saddr daddr)
  | .close => True

/-- The messages are in order, and nothing comes behind the close. -/
structure Accounted (s : IcmpSession) : Prop where
  checked : ∀ event ∈ s.log, Checked s.addresses s.id event
  closed : .close ∈ s.log ↔ s.freed = true
  inTurn : Law (fun before _ => .close ∉ before) s.log

variable {s next : IcmpSession}

/-- A session whose socket is open has not closed it before. -/
theorem Accounted.close_notMem (hs : s.Accounted) (hconsistent : s.Consistent) (hsocket : s.socket = true) :
    .close ∉ s.log := by
  intro hmem
  rw [Consistent, hsocket, hs.closed.mp hmem] at hconsistent
  cases hconsistent

/-- A session whose socket is open goes on. -/
theorem Accounted.snoc (hs : s.Accounted) (hconsistent : s.Consistent) (hsocket : s.socket = true) {event : IcmpEvent}
    (hevent : Checked s.addresses s.id event) (hclose : event ≠ .close) :
    ({ s with log := s.log ++ [event] } : IcmpSession).Accounted := by
  refine ⟨?_, ?_, Law.snoc_iff.mpr ⟨hs.inTurn, hs.close_notMem hconsistent hsocket⟩⟩
  · exact List.forall_mem_append.mpr ⟨hs.checked, List.forall_mem_singleton.mpr hevent⟩
  · rw [List.mem_append, List.mem_singleton, hs.closed]
    exact or_iff_left (Ne.symm hclose)

/-- Each effect keeps the messages in order and adds nothing behind the close. -/
theorem Accounted.effect (hs : s.Accounted) (hconsistent : s.Consistent) (heffect : IcmpEffect s next) :
    next.Accounted := by
  cases heffect with
  | time | stop => exact ⟨hs.checked, hs.closed, hs.inTurn⟩
  | send message plen nxt hsocket =>
    refine hs.snoc hconsistent hsocket ?_ (by simp)
    intro saddr daddr haddresses hmin hmax
    rw [length_request] at hmin hmax
    rw [haddresses]
    exact request_valid saddr daddr plen nxt hmin hmax
  | reply data whole hsocket _ hmax =>
    refine hs.snoc hconsistent hsocket ?_ (by simp)
    intro hmin
    rw [length_reply] at hmin
    have hfour : 4 ≤ ICMP_MINLEN := by decide
    exact ⟨icmp_id_reply s hmin, reply_checksummed_iff s (hfour.trans hmin) hmax⟩
  | close hsocket =>
    refine ⟨?_, by simp, Law.snoc_iff.mpr ⟨hs.inTurn, hs.close_notMem hconsistent hsocket⟩⟩
    exact List.forall_mem_append.mpr ⟨hs.checked, List.forall_mem_singleton.mpr trivial⟩

/-- A new session has done nothing yet. -/
theorem accounted_new (addresses : Addresses) (now : Int) (message : List UInt8) :
    (new addresses now message).Accounted :=
  ⟨fun _ hevent => absurd hevent List.not_mem_nil, by simp [new], Law.nil _⟩

/-- What the effects keep. -/
theorem Accounted.effects (hs : s.Consistent ∧ s.Accounted) (heffects : IcmpEffects s next) :
    next.Consistent ∧ next.Accounted :=
  invariant_of_reflTransGen (I := fun s => s.Consistent ∧ s.Accounted)
    (fun _ _ ht heffect => ⟨ht.1.effect heffect, ht.2.effect ht.1 heffect⟩) hs heffects

/-- A session of the list that is cleared closes its socket, as one that a check frees. -/
theorem clear_effect (hs : s.Consistent) (hfreed : s.freed = false) : IcmpEffect s s.clear := by
  have hsocket : s.socket = true := by
    rw [Consistent, hfreed] at hs
    exact hs
  rw [clear, if_pos hsocket]
  exact .close s hsocket

end IcmpSession

namespace Context

open IcmpSession

/-- The ICMP sessions of a list are in order. -/
def IcmpAccounted : NgSession → Prop
  | .icmp s => s.Consistent ∧ s.Accounted
  | _ => True

variable {a : Arguments} {actions : List Action} {final : Context}

/-- What every effect keeps holds of all sessions that a run has made. -/
theorem icmpAccounted_of_run (hrun : run (step a) initial actions = .ok final) :
    (∀ s ∈ final.ng_session, IcmpAccounted s) ∧ (∀ s ∈ final.deleted, s.freed = true ∧ IcmpAccounted s) ∧
      ∀ s ∈ final.cleared, ∃ t, t.freed = false ∧ IcmpAccounted t ∧ s = t.clear := by
  refine sessions_of_run ?_ (fun _ _ _ => trivial) (fun _ _ _ _ _ => trivial) (fun _ _ _ _ _ _ => trivial) ?_
    (fun _ _ _ _ _ => trivial) hrun
  · exact fun addresses now message => ⟨consistent_new addresses now message, accounted_new addresses now message⟩
  · intro s t hs hst
    cases hst with
    | icmp heffects => exact Accounted.effects hs heffects
    | udp => trivial
    | tcp => trivial

/-- In every run of the thread, an ICMP session that is listed, was freed or was cleared has
used its socket only while it was open. Each message of IPv4 that was sent, or that the app
got, has a right checksum. No message of IPv6 that the app got has one. All messages that the
app got have the ID of the first request. A session that was freed or cleared has closed its
socket. All of this is about messages of at least eight bytes. -/
theorem icmp_checked_of_run (hrun : run (step a) initial actions = .ok final) {s : IcmpSession}
    (hs : .icmp s ∈ final.ng_session ∨ .icmp s ∈ final.deleted ∨ .icmp s ∈ final.cleared) :
    (∀ event ∈ s.log, Checked s.addresses s.id event) ∧ Law (fun before _ => .close ∉ before) s.log ∧
      (.icmp s ∈ final.deleted ∨ .icmp s ∈ final.cleared → .close ∈ s.log) := by
  obtain ⟨hlist, hdeleted, hcleared⟩ := icmpAccounted_of_run hrun
  have hgone : .icmp s ∈ final.deleted ∨ .icmp s ∈ final.cleared → s.Accounted ∧ s.freed = true := by
    rintro (hgone | hgone)
    · exact ⟨(hdeleted _ hgone).2.2, (hdeleted _ hgone).1⟩
    · obtain ⟨t, hfreed, ht, heq⟩ := hcleared _ hgone
      cases t with
      | icmp t =>
        cases heq
        have hclear := clear_effect ht.1 hfreed
        refine ⟨ht.2.effect ht.1 hclear, ?_⟩
        rw [IcmpSession.clear]
        split <;> rfl
      | udp | tcp => cases heq
  have haccounted : s.Accounted := by
    rcases hs with hs | hs
    · exact (hlist _ hs).2
    · exact (hgone hs).1
  exact ⟨haccounted.checked, haccounted.inTurn, fun hs => haccounted.closed.mpr (hgone hs).2⟩

/-- The kernel has put an ID of its own into the reply. -/
def echoReply : IcmpSession.SocketEvent where
  now := 11
  error := false
  input := true
  recv := .bytes [0, 0, 0, 0, 254, 253, 0, 1]
  tun := fun _ => true

/-- An echo is asked for and comes back, and its session is freed. One of IPv6 is asked for
and comes back behind that, and its session is cleared. -/
def echoActions : List Action := [
  .pass (plainPass 10 [(plainReception, ⟨queryKey.addresses, .icmp 0 1 [8, 0, 0, 0, 1, 2, 0, 1]⟩)]
    [(0, .icmp echoReply)]),
  .pass (plainPass 100 [(plainReception, ⟨.ip6 1 2, .icmp 8 58 [8, 0, 0, 0, 1, 2, 0, 1]⟩)] [(0, .icmp echoReply)]),
  .clear]

/-- An echo of IPv4 whose session is freed, and one of IPv6 whose session is cleared. -/
theorem echo_checked : ∃ final s t, run (step plainArguments) initial echoActions = .ok final ∧
    (final.deleted = [.icmp s] ∧ s.log.length = 3 ∧ (∀ event ∈ s.log, Checked s.addresses s.id event) ∧
      Law (fun before _ => .close ∉ before) s.log ∧ .close ∈ s.log) ∧
    final.cleared = [.icmp t] ∧ t.addresses = .ip6 1 2 ∧ t.log.length = 3 ∧
      (∀ event ∈ t.log, Checked t.addresses t.id event) ∧ .close ∈ t.log := by
  obtain ⟨final, s, t, hrun, hdeleted, hlength, hcleared, haddresses, hevents⟩ : ∃ final s t,
      run (step plainArguments) initial echoActions = .ok final ∧ final.deleted = [.icmp s] ∧ s.log.length = 3 ∧
        final.cleared = [.icmp t] ∧ t.addresses = .ip6 1 2 ∧ t.log.length = 3 :=
    ⟨_, _, _, rfl, rfl, rfl, rfl, rfl, rfl⟩
  have hs : .icmp s ∈ final.deleted := hdeleted ▸ List.mem_singleton_self _
  have ht : .icmp t ∈ final.cleared := hcleared ▸ List.mem_singleton_self _
  obtain ⟨hchecked, hlaw, hclose⟩ := icmp_checked_of_run hrun (.inr (.inl hs))
  obtain ⟨hchecked', -, hclose'⟩ := icmp_checked_of_run hrun (.inr (.inr ht))
  exact ⟨final, s, t, hrun, ⟨hdeleted, hlength, hchecked, hlaw, hclose (.inl hs)⟩, hcleared, haddresses, hevents,
    hchecked', hclose' (.inr ht)⟩

end Context

end inspector.netguard.jni
